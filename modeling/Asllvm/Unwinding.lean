import Asllvm.CallChains

/-!
# Unwinding

An exception ends the functions that are active, one after another. A check that fires leaves the
function that runs, with a state other than `Ok`; the caller compares what it got with `Ok`, and
leaves in turn.

* `Frame.Fires` — an activation is at a check that fires.
* `Frame.Leaving` — an activation is on the way out, with nothing left to do but to compare and return.
* `Chain.Unwinding` — the innermost activation is on the way out, and every other one waits.

## Main results

* `Frame.stands_invariant` — what an activation knows of the script call it has made last.
* `Frame.Stands.ret` — an activation returns `Ok` only from a `RET`, and otherwise an exception.
* `exceptions_unwind` — a check that fires with a state ends every active function with that state.
-/

open StateExcept

namespace Asllvm

/-! ### Checked code -/

section Checked

variable {done ps : List Piece}

/-- **What comes after a script call** compares the state it returned, and checks that. -/
theorem Checked.of_scriptCall {dst : Option ℕ} {target : Operand} {args : List Value}
    (h : Checked (done ++ .instr (.call dst (.script target) args) :: ps)) :
    ∃ r ps', dst = some r ∧ ps =
      .instr (.icmp (r + 1) .ne .vmState (.reg r) VmState.Ok.const.op) ::
        .check (.reg (r + 1)) (.reg r) :: ps' := by
  generalize hqs : done ++ .instr (.call dst (.script target) args) :: ps = qs at h
  induction h generalizing done with
  | nil => exact absurd hqs (by simp)
  | @instr i qs hi _ ih =>
      cases done with
      | nil =>
          obtain ⟨hfirst, -⟩ := List.cons.inj hqs
          obtain rfl := Piece.instr.inj hfirst
          exact absurd hi Bool.noConfusion
      | cons first done =>
          obtain ⟨-, htail⟩ := List.cons.inj hqs
          exact ih htail
  | check _ _ ih =>
      cases done with
      | nil => exact Piece.noConfusion (List.cons.inj hqs).1
      | cons first done => exact ih (List.cons.inj hqs).2
  | @scriptCall r target' args' qs _ ih =>
      cases done with
      | nil =>
          obtain ⟨hfirst, rfl⟩ := List.cons.inj hqs
          obtain ⟨rfl, -, -⟩ := Instr.call.inj (Piece.instr.inj hfirst)
          exact ⟨r, qs, rfl, rfl⟩
      | cons first done =>
          obtain ⟨-, htail⟩ := List.cons.inj hqs
          cases done with
          | nil => exact Instr.noConfusion (Piece.instr.inj (List.cons.inj htail).1)
          | cons second done =>
              obtain ⟨-, htail'⟩ := List.cons.inj htail
              cases done with
              | nil => exact Piece.noConfusion (List.cons.inj htail').1
              | cons third done => exact ih (List.cons.inj htail').2

/-- **A check** leaves with an exception, or with the state that the script call before it
returned. -/
theorem Checked.of_check {cond state : Operand} (h : Checked (done ++ .check cond state :: ps)) :
    (∃ e : VmState, e ≠ .Ok ∧ state = e.const.op) ∨
    ∃ done' r target args, done = done' ++ [.instr (.call (some r) (.script target) args)] ++
        [.instr (.icmp (r + 1) .ne .vmState (.reg r) VmState.Ok.const.op)] ∧
      cond = .reg (r + 1) ∧ state = .reg r := by
  generalize hqs : done ++ .check cond state :: ps = qs at h
  induction h generalizing done with
  | nil => exact absurd hqs (by simp)
  | instr _ _ ih =>
      cases done with
      | nil => exact Piece.noConfusion (List.cons.inj hqs).1
      | cons first done =>
          obtain ⟨rfl, htail⟩ := List.cons.inj hqs
          rcases ih htail with hexception | ⟨done', r, target, args, rfl, hstate⟩
          · exact .inl hexception
          · exact .inr ⟨_ :: done', r, target, args, rfl, hstate⟩
  | @check cond' e qs he _ ih =>
      cases done with
      | nil =>
          obtain ⟨-, rfl⟩ := Piece.check.inj (List.cons.inj hqs).1
          exact .inl ⟨e, he, rfl⟩
      | cons first done =>
          obtain ⟨rfl, htail⟩ := List.cons.inj hqs
          rcases ih htail with hexception | ⟨done', r, target, args, rfl, hstate⟩
          · exact .inl hexception
          · exact .inr ⟨_ :: done', r, target, args, rfl, hstate⟩
  | @scriptCall r target args qs _ ih =>
      cases done with
      | nil => exact Piece.noConfusion (List.cons.inj hqs).1
      | cons first done =>
          obtain ⟨rfl, htail⟩ := List.cons.inj hqs
          cases done with
          | nil => exact Piece.noConfusion (List.cons.inj htail).1
          | cons second done =>
              obtain ⟨rfl, htail'⟩ := List.cons.inj htail
              cases done with
              | nil =>
                  obtain ⟨rfl, rfl⟩ := Piece.check.inj (List.cons.inj htail').1
                  exact .inr ⟨[], r, target, args, rfl, rfl, rfl⟩
              | cons third done =>
                  obtain ⟨rfl, hrest⟩ := List.cons.inj htail'
                  rcases ih hrest with hexception | ⟨done', r', target', args', rfl, hstate⟩
                  · exact .inl hexception
                  · exact .inr ⟨_ :: _ :: _ :: done', r', target', args', rfl, hstate⟩

end Checked

instance (offset : ℤ) : Emits Appends (setStackPointer offset) where
  effect h := by
    rw [runs_modify.mp h]
    exact ⟨[], by simp, .nil, Nat.le_refl _, by simp [definedRegisters]⟩

/-- **The code a frame can be in is checked.** -/
theorem Implementation.Code.checked {impl : Implementation} {current : Option ℕ} {qs : List Piece}
    {E : Position → Prop} (h : impl.Code current qs E) : Checked qs := by
  cases h with
  | rest => exact .nil
  | structures hlocal =>
      obtain ⟨ps, hemitted⟩ :=
        (emitAllocateLocalStructures_emits (R := Appends) impl.context).effect hlocal
      have hout : _ = ps := hemitted.out
      rw [hout]
      exact hemitted.checked
  | instruction hcode _ =>
      obtain ⟨st, t, s', -, -, rfl, hruns, -⟩ := hcode
      obtain ⟨ps, hemitted⟩ := (translateOpcode_emits _ _ _).effect hruns
      have hout : _ = ps := hemitted.out
      rw [hout]
      exact hemitted.checked

/-! ### What an activation returns -/

theorem VmState.const_op_eval (e : VmState) (env : Env) (regs : Regs) :
    e.const.op.eval env regs = e.word := by
  cases e <;> rfl

/-- The comparison after a script call. -/
theorem VmState.exec_compare {env : Env} {regs : Regs} {mem : Bytes.Mem} {r : ℕ} {e : VmState}
    (h : regs r = e.word) :
    (Instr.icmp (r + 1) .ne .vmState (.reg r) VmState.Ok.const.op).exec env regs mem =
      some (Function.update regs (r + 1) (ofBool (decide (e ≠ .Ok))), mem) := by
  rw [Instr.exec, VmState.const_op_eval, Operand.eval, h]
  cases e <;> rfl

namespace Frame

variable {program : Program} {frame caller : Frame program} {done ps : List Piece} {state : Word}

/-- What an activation knows of the script call it has made last: that a `VmState` was returned and,
once it has compared that, whether it was `Ok`. -/
structure Answered (frame : Frame program) (done : List Piece) : Prop where
  called : ∀ done' r target args, done = done' ++ [.instr (.call (some r) (.script target) args)] →
    ∃ e : VmState, frame.state.regs r = e.word
  compared : ∀ done' r target args, done = done' ++ [.instr (.call (some r) (.script target) args)] ++
      [.instr (.icmp (r + 1) .ne .vmState (.reg r) VmState.Ok.const.op)] →
    ∃ e : VmState, frame.state.regs r = e.word ∧
      frame.state.regs (r + 1) = ofBool (decide (e ≠ .Ok))

theorem answered_nil : Answered frame [] where
  called done' r target args hdone := absurd hdone (by simp)
  compared done' r target args hdone := absurd hdone (by simp)

/-- A call of anything but a script function. -/
theorem answered_of_call {dst : Option ℕ} {callee : Callee} {args : List Value}
    (h : ∀ target, callee ≠ .script target) :
    Answered frame (done ++ [.instr (.call dst callee args)]) where
  called done' r target args' hdone := by
    obtain ⟨-, hpiece⟩ := List.append_inj' hdone rfl
    obtain ⟨-, hcallee, -⟩ := Instr.call.inj (Piece.instr.inj (List.singleton_inj.mp hpiece))
    exact absurd hcallee (h target)
  compared done' r target args' hdone := by
    obtain ⟨-, hpiece⟩ := List.append_inj' hdone rfl
    exact Instr.noConfusion (Piece.instr.inj (List.singleton_inj.mp hpiece))

/-- **A step inside the code** keeps that, and the comparison adds to it. -/
theorem Answered.next {piece : Piece} {s : LocalState} (h : frame.Answered done)
    (hadvances : Advances frame.env frame.state (piece :: ps) s ps) :
    (frame.goto s).Answered (done ++ [piece]) where
  called done' r target args hdone := by
    obtain ⟨-, hpiece⟩ := List.append_inj' hdone rfl
    obtain rfl := List.singleton_inj.mp hpiece
    cases hadvances with
    | instr hitem hexec => exact absurd hexec (Option.some_ne_none _).symm
  compared done' r target args hdone := by
    obtain ⟨hcall, hpiece⟩ := List.append_inj' hdone rfl
    obtain rfl := List.singleton_inj.mp hpiece
    obtain ⟨e, he⟩ := h.called _ _ _ _ hcall
    cases hadvances with
    | instr hitem hexec =>
        obtain ⟨rfl, rfl⟩ := Prod.mk.inj
          (Option.some.inj ((VmState.exec_compare he).symm.trans hexec))
        refine ⟨e, ?_, Function.update_self ..⟩
        rw [goto_state]
        exact (Function.update_of_ne (Nat.ne_of_lt r.lt_succ_self) _ _).trans he

/-- **A check that fires** leaves with an exception. -/
theorem Inside.exception {cond state : Operand} (h : Inside frame done (.check cond state :: ps))
    (hanswered : frame.Answered done)
    (hfires : (cond.eval frame.env frame.state.regs).getLsbD 0 = true) :
    ∃ e : VmState, e ≠ .Ok ∧ state.eval frame.env frame.state.regs = e.word := by
  obtain ⟨E, hcode, -⟩ := h
  rcases hcode.checked.of_check with ⟨e, he, rfl⟩ | ⟨done', r, target, args, hdone, rfl, rfl⟩
  · exact ⟨e, he, e.const_op_eval _ _⟩
  · obtain ⟨e, hstate, hcond⟩ := hanswered.compared _ _ _ _ hdone
    refine ⟨e, fun hok => ?_, hstate⟩
    rw [Operand.eval, hcond, hok] at hfires
    exact absurd hfires (by decide)

/-- Where an activation stands: inside its code, knowing what its callees returned, or behind a check
that has fired, about to return an exception. -/
inductive Stands (frame : Frame program) : Prop
  | inside {done ps : List Piece} : Inside frame done ps → frame.Answered done → Stands frame
  | left {n : ℕ} {state : Operand} {e : VmState} :
      frame.state.position = (.setVmException n, 0) →
      itemAt frame.env.blocks frame.state.position = some (.term (.ret state)) →
      e ≠ .Ok → state.eval frame.env frame.state.regs = e.word → Stands frame

/-- **An activation returns an exception**, or it runs a `RET` and returns `Ok`. -/
theorem Stands.ret {value : Word} (h : frame.Stands) (hstep : frame.step = .ret value) :
    (∃ e : VmState, e ≠ .Ok ∧ value = e.word) ∨
      value = VmState.Ok.word ∧
        ∃ ins ∈ frame.impl.bytecode, ins.bc = .RET ∧ frame.state.current = some ins.offset := by
  obtain ⟨state, hitem, rfl⟩ := LocalState.itemAt_of_ret hstep
  cases h with
  | @inside done ps hinside _ =>
      obtain ⟨E, hcode, hremains⟩ := hinside
      have hend := hremains.ret hitem
      rw [frame.activates.blocks] at hitem
      generalize done ++ ps = qs at hcode
      cases hcode with
      | rest | structures => exact absurd hitem (hend state)
      | @instruction ins sp _ p q hcode hcurrent =>
          obtain ⟨hbc, rfl⟩ := hend state hitem
          obtain ⟨st, t, s', hat, -⟩ := hcode
          exact .inr ⟨VmState.Ok.const_op_eval _ _, ins, hat.mem, hbc, hcurrent⟩
  | left _ hitem' he hstate =>
      obtain rfl := Terminator.ret.inj (Item.term.inj (Option.some.inj (hitem'.symm.trans hitem)))
      exact .inl ⟨_, he, hstate⟩

theorem Stands.exists_state {value : Word} (h : frame.Stands) (hstep : frame.step = .ret value) :
    ∃ e : VmState, value = e.word := by
  rcases h.ret hstep with ⟨e, -, he⟩ | ⟨hok, -⟩
  · exact ⟨e, he⟩
  · exact ⟨_, hok⟩

/-- **What an activation that waits finds** when its callee returns: the comparison is next. -/
theorem Waits.resume (h : caller.Waits) {dst : Option ℕ} {target : Operand} {args : List Value}
    (hcall : caller.step = .call dst (.script target) args) (value : Word) (mem : Bytes.Mem) :
    ∃ done r ps, dst = some r ∧ Inside (caller.goto (caller.state.resume dst value mem))
      (done ++ [.instr (.call (some r) (.script target) args)])
      (.instr (.icmp (r + 1) .ne .vmState (.reg r) VmState.Ok.const.op) ::
        .check (.reg (r + 1)) (.reg r) :: ps) := by
  obtain ⟨done, ps, dst', target', args', hinside, -⟩ := h
  obtain ⟨E, hcode, hremains⟩ := hinside
  obtain ⟨ps', hps, hinside'⟩ := Inside.call ⟨E, hcode, hremains⟩ hcall
  obtain ⟨hpiece, rfl⟩ := List.cons.inj hps
  obtain ⟨rfl, hcallee, rfl⟩ := Instr.call.inj (Piece.instr.inj hpiece)
  obtain rfl := Callee.script.inj hcallee
  obtain ⟨r, ps'', rfl, rfl⟩ := hcode.checked.of_scriptCall
  exact ⟨done, r, ps'', rfl, hinside' value mem⟩

/-- **Every step keeps an activation where it stands.** -/
theorem stands_invariant (program : Program) :
    Frame.Invariant (fun (frame : Frame program) _ => frame.Stands) where
  starts h := by
    obtain ⟨ps, hinside⟩ := h.inside
    exact .inside hinside answered_nil
  inside h hcall := by
    cases h with
    | inside hinside _ => exact ⟨_, _, hinside⟩
    | left _ hitem _ _ =>
        rw [step_of_ret hitem] at hcall
        cases hcall
  next h hnext := by
    cases h with
    | inside hinside hanswered =>
        rcases hinside.next hnext with ⟨piece, ps', rfl, hadvances, hinside'⟩ |
          ⟨n, cond, state, ps', rfl, hfires, hitem, rfl⟩ | ⟨ps', hinside'⟩
        · exact .inside hinside' (hanswered.next hadvances)
        · obtain ⟨e, he, hstate⟩ := hinside.exception hanswered hfires
          exact .left rfl hitem he hstate
        · exact .inside hinside' answered_nil
    | left _ hitem _ _ =>
        rw [step_of_ret hitem] at hnext
        cases hnext
  answer value mem h hcall hscript _ := by
    cases h with
    | inside hinside _ =>
        obtain ⟨ps', rfl, hinside'⟩ := hinside.call hcall
        exact .inside (hinside' value mem) (answered_of_call hscript)
    | left _ hitem _ _ =>
        rw [step_of_ret hitem] at hcall
        cases hcall
  leave h hret hwaits hcall := by
    obtain ⟨e, rfl⟩ := h.exists_state hret
    obtain ⟨done, r, ps, rfl, hinside⟩ := hwaits.resume hcall e.word _
    refine .inside hinside ⟨fun done' r' target' args' hdone => ⟨e, ?_⟩,
      fun done' r' target' args' hdone => ?_⟩
    · obtain ⟨-, hpiece⟩ := List.append_inj' hdone rfl
      obtain ⟨hr, -, -⟩ := Instr.call.inj (Piece.instr.inj (List.singleton_inj.mp hpiece))
      obtain rfl := Option.some.inj hr
      exact LocalState.resume_regs_self ..
    · obtain ⟨-, hpiece⟩ := List.append_inj' hdone rfl
      exact Instr.noConfusion (Piece.instr.inj (List.singleton_inj.mp hpiece))

/-! ### The way out -/

/-- A **check fires** with a state: the branch is taken to the block that returns it. -/
def Fires (frame : Frame program) (state : Word) : Prop :=
  ∃ cond n op, itemAt frame.env.blocks frame.state.position =
      some (.term (.condBr cond (.setVmException n) (.doNotSetVmException n))) ∧
    (cond.eval frame.env frame.state.regs).getLsbD 0 = true ∧
    itemAt frame.env.blocks (.setVmException n, 0) = some (.term (.ret op)) ∧
    op.eval frame.env frame.state.regs = state

/-- An activation is **on the way out** with a state: it compares what a script function has returned
and branches on that, or it is at a check that fires, or at the return. -/
inductive Leaving (frame : Frame program) (state : Word) : Prop
  | compares {r n : ℕ} :
      itemAt frame.env.blocks frame.state.position =
        some (.instr (.icmp (r + 1) .ne .vmState (.reg r) VmState.Ok.const.op)) →
      itemAt frame.env.blocks frame.state.position.next =
        some (.term (.condBr (.reg (r + 1)) (.setVmException n) (.doNotSetVmException n))) →
      itemAt frame.env.blocks (.setVmException n, 0) = some (.term (.ret (.reg r))) →
      frame.state.regs r = state → Leaving frame state
  | fires : frame.Fires state → Leaving frame state
  | returns {op : Operand} :
      itemAt frame.env.blocks frame.state.position = some (.term (.ret op)) →
      op.eval frame.env frame.state.regs = state → Leaving frame state

/-- A check fires with an exception. -/
theorem Stands.exception (h : frame.Stands) (hfires : frame.Fires state) :
    ∃ e : VmState, e ≠ .Ok ∧ state = e.word := by
  obtain ⟨cond, n, op, hitem, hcond, hret, rfl⟩ := hfires
  cases h with
  | inside hinside hanswered =>
      have hinside' := hinside
      obtain ⟨E, -, hremains⟩ := hinside'
      obtain ⟨ps', rfl⟩ := hremains.check hitem hret
      exact hinside.exception hanswered hcond
  | left _ hitem' _ _ =>
      exact Terminator.noConfusion (Item.term.inj (Option.some.inj (hitem'.symm.trans hitem)))

/-- A check that fires goes to the return. -/
theorem Fires.step (h : frame.Fires state) : ∃ s op, frame.step = .next s ∧
    s.mem = frame.state.mem ∧ itemAt frame.env.blocks s.position = some (.term (.ret op)) ∧
      op.eval frame.env s.regs = state := by
  obtain ⟨cond, n, op, hitem, hcond, hret, hstate⟩ := h
  have hgoto : (Terminator.condBr cond (.setVmException n) (.doNotSetVmException n)).goto frame.env
      frame.state.regs = some (.setVmException n) := by
    rw [Terminator.goto, if_pos hcond]
  exact ⟨_, op, LocalState.step_branch hitem hgoto, rfl, hret, hstate⟩

/-- A comparison with `Ok` goes to a check that fires. -/
theorem step_compare {e : VmState} (he : e ≠ .Ok) {r n : ℕ}
    (hitem : itemAt frame.env.blocks frame.state.position =
      some (.instr (.icmp (r + 1) .ne .vmState (.reg r) VmState.Ok.const.op)))
    (hcheck : itemAt frame.env.blocks frame.state.position.next =
      some (.term (.condBr (.reg (r + 1)) (.setVmException n) (.doNotSetVmException n))))
    (hret : itemAt frame.env.blocks (.setVmException n, 0) = some (.term (.ret (.reg r))))
    (hstate : frame.state.regs r = e.word) :
    ∃ s, frame.step = .next s ∧ s.mem = frame.state.mem ∧ (frame.goto s).Fires e.word := by
  refine ⟨_, LocalState.step_instr hitem (VmState.exec_compare hstate), rfl,
    _, n, _, hcheck, ?_, hret, ?_⟩
  · have hcond := Function.update_self (r + 1) (ofBool (decide (e ≠ .Ok))) frame.state.regs
    rw [decide_eq_true he] at hcond
    rw [Operand.eval, goto_state]
    dsimp only
    rw [decide_eq_true he, hcond]
    rfl
  · exact (Function.update_of_ne (Nat.ne_of_lt r.lt_succ_self) _ _).trans hstate

/-- **A step on the way out** stays on it and leaves the memory alone, or it is the return. -/
theorem Leaving.step {e : VmState} (he : e ≠ .Ok) (h : frame.Leaving e.word) :
    (∃ s, frame.step = .next s ∧ s.mem = frame.state.mem ∧ (frame.goto s).Leaving e.word) ∨
      frame.step = .ret e.word := by
  cases h with
  | @compares r n hitem hcheck hret hstate =>
      obtain ⟨s, hstep, hmem, hfires⟩ := step_compare he hitem hcheck hret hstate
      exact .inl ⟨s, hstep, hmem, .fires hfires⟩
  | fires hfires =>
      obtain ⟨s, op, hstep, hmem, hitem, hstate⟩ := hfires.step
      exact .inl ⟨s, hstep, hmem, .returns hitem hstate⟩
  | returns hitem hstate => exact .inr (hstate ▸ step_of_ret hitem)

/-- **An activation whose callee returned a state** is on the way out. -/
theorem Waits.leaving (h : caller.Waits) {dst : Option ℕ} {target : Operand} {args : List Value}
    (hcall : caller.step = .call dst (.script target) args) (state : Word) (mem : Bytes.Mem) :
    (caller.goto (caller.state.resume dst state mem)).Leaving state := by
  obtain ⟨done, r, ps, rfl, E, -, -, q, hcode, -⟩ := h.resume hcall state mem
  cases hcode with
  | instr hitem hcode =>
      cases hcode with
      | check hcheck hblock _ =>
          have hreturn := itemAt_of_prefix hblock (k := 0) rfl
          exact .compares hitem hcheck hreturn (LocalState.resume_regs_self ..)

end Frame

namespace Chain

variable {program : Program} {chain chain' : Chain program} {state : Word} {mem : Bytes.Mem}
  {waiting : List (Frame program)}

/-- A chain **unwinds** with a state: the innermost activation is on the way out with it, every other
one waits, as it did before, and the memory is as it was. -/
def Unwinding (state : Word) (mem : Bytes.Mem) (waiting : List (Frame program))
    (chain : Chain program) : Prop :=
  ∃ frame rest, chain.frames = frame :: rest ∧ frame.Leaving state ∧ frame.state.mem = mem ∧
    (∀ caller ∈ rest, caller.Waits) ∧ rest <:+ waiting

/-- **One step** of a chain that unwinds. -/
theorem Unwinding.step {e : VmState} (he : e ≠ .Ok) (h : chain.Unwinding e.word mem waiting)
    (hstep : chain.Step chain') : chain'.Unwinding e.word mem waiting := by
  obtain ⟨frame, rest, hframes, hleaving, hmem, hwaits, hsuffix⟩ := h
  have hcases := hleaving.step he
  cases hstep with
  | next hnext =>
      obtain ⟨rfl, rfl⟩ := List.cons.inj hframes
      rcases hcases with ⟨s, hs, hsmem, hleaving'⟩ | hret
      · obtain rfl := Outcome.next.inj (hnext.symm.trans hs)
        exact ⟨_, _, rfl, hleaving', hsmem.trans hmem, hwaits, hsuffix⟩
      · exact Outcome.noConfusion (hnext.symm.trans hret)
  | prepare hcall | runtime hcall _ | native hcall | enter hcall _ _ _ _ =>
      -- no call is made on the way out
      obtain ⟨rfl, rfl⟩ := List.cons.inj hframes
      rcases hcases with ⟨s, hs, -⟩ | hret
      · exact Outcome.noConfusion (hcall.symm.trans hs)
      · exact Outcome.noConfusion (hcall.symm.trans hret)
  | leave hret' hcall =>
      obtain ⟨rfl, rfl⟩ := List.cons.inj hframes
      rcases hcases with ⟨s, hs, -⟩ | hret
      · exact Outcome.noConfusion (hret'.symm.trans hs)
      · obtain rfl := Outcome.ret.inj (hret'.symm.trans hret)
        exact ⟨_, _, rfl, (hwaits _ List.mem_cons_self).leaving hcall _ _, hmem,
          fun caller hcaller => hwaits caller (List.mem_cons_of_mem _ hcaller),
          (List.suffix_cons _ _).trans hsuffix⟩

theorem Reaches.of_fires {frame : Frame program} (h : frame.Fires state)
    (rest : List (Frame program)) (calling : Word) : ∃ frame',
      Reaches ⟨frame :: rest, calling⟩ ⟨frame' :: rest, calling⟩ ∧ frame'.step = .ret state := by
  obtain ⟨s, op, hstep, -, hitem, rfl⟩ := h.step
  have hreturn : (frame.goto s).step = .ret (op.eval frame.env s.regs) := Frame.step_of_ret hitem
  exact ⟨frame.goto s, .single (.next hstep), hreturn⟩

/-- **The activation on the way out returns.** -/
theorem Reaches.of_leaving {e : VmState} (he : e ≠ .Ok) {frame : Frame program}
    (h : frame.Leaving e.word) (rest : List (Frame program)) (calling : Word) : ∃ frame',
      Reaches ⟨frame :: rest, calling⟩ ⟨frame' :: rest, calling⟩ ∧ frame'.step = .ret e.word := by
  cases h with
  | returns hitem hstate => exact ⟨frame, .refl, hstate ▸ Frame.step_of_ret hitem⟩
  | fires hfires => exact Reaches.of_fires hfires rest calling
  | compares hitem hcheck hret hstate =>
      obtain ⟨s, hstep, -, hfires⟩ := Frame.step_compare he hitem hcheck hret hstate
      obtain ⟨frame', hreaches, hreturns⟩ := Reaches.of_fires hfires rest calling
      exact ⟨frame', .head (.next hstep) hreaches, hreturns⟩

/-- **A chain that unwinds ends**: the outermost activation returns the state. -/
theorem Unwinding.ends {e : VmState} (he : e ≠ .Ok) (h : chain.Unwinding e.word mem waiting) :
    ∃ last calling, chain.Reaches ⟨[last], calling⟩ ∧ last.step = .ret e.word := by
  obtain ⟨frames, calling⟩ := chain
  obtain ⟨frame, rest, rfl, hleaving, -, hwaits, -⟩ := h
  induction rest generalizing frame with
  | nil =>
      obtain ⟨last, hreaches, hreturns⟩ := Reaches.of_leaving he hleaving [] calling
      exact ⟨last, calling, hreaches, hreturns⟩
  | cons caller rest ih =>
      obtain ⟨frame', hreaches, hreturns⟩ := Reaches.of_leaving he hleaving (caller :: rest) calling
      have hwaiting := hwaits caller List.mem_cons_self
      obtain ⟨done, ps, dst, target, args, -, hcall⟩ := hwaiting
      have hleave : Step ⟨frame' :: caller :: rest, calling⟩ ⟨_ :: rest, calling⟩ :=
        .leave hreturns hcall
      obtain ⟨last, calling', hrest, hlast⟩ := ih _ ((hwaits caller List.mem_cons_self).leaving hcall _ _)
        fun caller' hcaller' => hwaits caller' (List.mem_cons_of_mem _ hcaller')
      exact ⟨last, calling', (hreaches.tail hleave).trans hrest, hlast⟩

theorem Reaches.unwinding {e : VmState} (he : e ≠ .Ok) (h : chain.Unwinding e.word mem waiting)
    (hreaches : chain.Reaches chain') : chain'.Unwinding e.word mem waiting := by
  induction hreaches with
  | refl => exact h
  | tail _ hstep ih => exact ih.step he hstep

end Chain

/-- **Exceptions unwind the whole chain.** When a check of the innermost activation fires, it does so
with an exception, whatever comes next keeps unwinding with that very state, and comes to the
outermost activation, which returns it; and `Ok` is only returned by the code of a `RET`. -/
theorem exceptions_unwind {program : Program} {chain chain' : Chain program}
    {frame : Frame program} {rest : List (Frame program)} (hstarts : chain.Starts)
    (hreaches : chain.Reaches chain') (hframes : chain'.frames = frame :: rest) :
    (∀ state, frame.Fires state → (∃ e : VmState, e ≠ .Ok ∧ state = e.word) ∧
      ∀ chain'', chain'.Reaches chain'' → chain''.Unwinding state frame.state.mem rest ∧
        ∃ last calling, chain''.Reaches ⟨[last], calling⟩ ∧ last.step = .ret state) ∧
    (frame.step = .ret VmState.Ok.word →
      ∃ ins ∈ frame.impl.bytecode, ins.bc = .RET ∧ frame.state.current = some ins.offset) := by
  obtain ⟨frame', rest', hframes', hstands, hwaits⟩ :=
    hreaches.fulfils (Frame.stands_invariant program) hstarts
  obtain ⟨rfl, rfl⟩ := List.cons.inj (hframes.symm.trans hframes')
  refine ⟨fun state hfires => ?_, fun hreturns => ?_⟩
  · obtain ⟨e, he, rfl⟩ := hstands.exception hfires
    refine ⟨⟨e, he, rfl⟩, fun chain'' hreaches' => ?_⟩
    have hunwinding : chain''.Unwinding e.word frame.state.mem rest :=
      Chain.Reaches.unwinding he ⟨frame, rest, hframes, .fires hfires, rfl, hwaits, List.suffix_rfl⟩
        hreaches'
    exact ⟨hunwinding, hunwinding.ends he⟩
  · rcases hstands.ret hreturns with ⟨e, he, hok⟩ | ⟨-, hret⟩
    · exact absurd hok (by cases e <;> first | exact absurd rfl he | decide)
    · exact hret

/-- **A C function sets an exception**: the check after the call fires, whatever waits. -/
theorem Chain.reaches_fires {program : Program} {frame : Frame program}
    (hentry : frame.impl.blocks .entry = callsNativeEntry)
    (hexception : frame.impl.blocks (.setVmException 0) = [.term (.ret (.const 1))])
    (hposition : frame.state.position = (.entry, 8))
    (hcall : frame.step = .call none (.system (.systemFunction 1)) [])
    (rest : List (Frame program)) (calling : Word) : ∃ frame', frame'.impl = frame.impl ∧
      frame'.env = frame.env ∧ Chain.Reaches ⟨frame :: rest, calling⟩ ⟨frame' :: rest, calling⟩ ∧
      frame'.Fires VmState.ExceptionExternal.word := by
  obtain ⟨impl, env, ⟨position, regs, mem, current⟩, activates, symbols⟩ := frame
  obtain rfl : position = (.entry, 8) := hposition
  let frame : Frame program := ⟨impl, env, ⟨(.entry, 8), regs, mem, current⟩, activates, symbols⟩
  have hnative : Chain.Step ⟨frame :: rest, calling⟩
      ⟨frame.goto (frame.state.resume none 0 mem) :: rest, calling⟩ := .native hcall
  let frame₁ := frame.goto (frame.state.resume none 0 mem)
  have hstatus : frame₁.step = .call (some 0) (.runtime .checkExecutionStatus) [] :=
    LocalState.step_call (@Frame.itemAt_of_blocks _ frame₁ _ _ _ _ hentry rfl)
  let frame₂ := frame₁.goto (frame₁.state.resume (some 0) VmState.ExceptionExternal.word mem)
  have hruntime : Chain.Step ⟨frame₁ :: rest, calling⟩ ⟨frame₂ :: rest, calling⟩ :=
    .runtime hstatus RuntimeFunction.noConfusion
  have hregister : frame₂.state.regs 0 = VmState.ExceptionExternal.word :=
    LocalState.resume_regs_self ..
  let failed : Word := ofBool (decide (VmState.ExceptionExternal ≠ .Ok))
  have hcompare : (Instr.icmp 1 .ne .vmState (.reg 0) VmState.Ok.const.op).exec env
      frame₂.state.regs mem = some (Function.update frame₂.state.regs 1 failed, mem) :=
    VmState.exec_compare hregister
  let compared : LocalState :=
    ⟨(.entry, 11), Function.update frame₂.state.regs 1 failed, mem, current⟩
  have hnext : frame₂.step = .next compared :=
    LocalState.step_instr (@Frame.itemAt_of_blocks _ frame₂ _ _ _ _ hentry rfl) hcompare
  have hfailed : (Function.update frame₂.state.regs 1 failed 1).getLsbD 0 = true := by
    rw [Function.update_self]
    decide
  have hreturn : itemAt env.blocks (.setVmException 0, 0) = some (.term (.ret (.const 1))) :=
    @Frame.itemAt_of_blocks _ frame _ _ _ _ hexception rfl
  exact ⟨frame₂.goto compared, rfl, rfl,
    ((Relation.ReflTransGen.single hnative).tail hruntime).tail (.next hnext),
    .reg 1, 0, .const 1, @Frame.itemAt_of_blocks _ frame _ _ _ _ hentry rfl, hfailed, hreturn, rfl⟩

/-- Such an exception in a function that another one has called, in particular: it ends both. -/
theorem exceptions_unwind_nested :
    ∃ (impl : Implementation) (first callee caller returned : Frame (nestedProgram impl)),
      first.Starts ∧ Chain.Reaches ⟨[first], 0⟩ ⟨[callee, caller], 2⟩ ∧
      callee.impl.context = procedureContext 2 ∧ caller.impl.context = procedureContext 3 ∧
      caller.env.layout.Below callee.env.layout ∧ callee.Fires VmState.ExceptionExternal.word ∧
      Chain.Reaches ⟨[callee, caller], 2⟩ ⟨[returned], 2⟩ ∧ returned.impl = caller.impl ∧
      Chain.Unwinding VmState.ExceptionExternal.word callee.state.mem [caller] ⟨[returned], 2⟩ ∧
      ∃ last calling, Chain.Reaches ⟨[returned], 2⟩ ⟨[last], calling⟩ ∧
        last.step = .ret VmState.ExceptionExternal.word := by
  obtain ⟨impl, first, caller, callee, hcontext, hentry, hexception, hstarts, houter, hreaches,
    hbelow, hcaller, hwaits, hcallee, hposition, hcall⟩ := exists_chain_nested
  obtain ⟨fires, himpl, henv, hfires, hstate⟩ := Chain.reaches_fires (by rw [hcallee, hentry])
    (by rw [hcallee, hexception]) hposition hcall [caller] 2
  obtain ⟨left, hleft, hreturns⟩ := Chain.Reaches.of_fires hstate [caller] 2
  have hleave : Chain.Step ⟨[left, caller], 2⟩ ⟨[caller.goto
      (caller.state.resume (some 0) VmState.ExceptionExternal.word left.state.mem)], 2⟩ :=
    .leave hreturns hwaits
  have hback := hleft.tail hleave
  obtain ⟨hunwinding, hends⟩ :=
    ((exceptions_unwind ⟨first, rfl, hstarts⟩ (hreaches.trans hfires) rfl).1 _ hstate).2 _ hback
  exact ⟨impl, first, fires, caller, _, hstarts, hreaches.trans hfires,
    by rw [himpl, hcallee, hcontext], by rw [hcaller, houter],
    henv ▸ hbelow, hstate, hback, rfl, hunwinding, hends⟩

end Asllvm
