import Asllvm.CallChains

/-!
# The Calling System Function

Before each call of a native function, `emit_system_call` lets the runtime store a pointer in
`m_callingSystemFunction` of the active context. The runtime takes it for the descriptor of the
function; what it is given is the address that is about to be called.

* `Announced` — code in which every native call directly follows the call that announces it.
* `Chain.KnowsCallee` — the context knows the function whose native code is called.

## Main results

* `translateOpcode_emits_announced` — the code of every instruction is announced.
* `Frame.announces_invariant`, `Chain.native_of_announces` — at every native call of every execution,
  `m_callingSystemFunction` is the address that is called.
* `calling_function_known_iff` — it is the descriptor of the function exactly where that address is.
-/

open StateExcept

namespace Asllvm

/-! ### Announced calls -/

/-- Every native call directly follows the call that announces its callee, which fulfils `P`. -/
inductive Announced (P : Value → Prop) : List Piece → Prop
  | nil : Announced P []
  | other {piece : Piece} {ps : List Piece} :
      piece.callsNative = false → Announced P ps → Announced P (piece :: ps)
  | native {callee : Value} {dst : Option ℕ} {args : List Value} {ps : List Piece} :
      P callee → Announced P ps → Announced P (nativeCall callee dst args ++ ps)

/-- Announced pieces are appended. -/
def AppendsAnnounced (P : Value → Prop) (s t : EmitState) : Prop :=
  ∃ ps, t.out = s.out ++ ps ∧ Announced P ps

section Announced

variable {P : Value → Prop} {ps qs : List Piece}

theorem Announced.append (h : Announced P ps) (h' : Announced P qs) : Announced P (ps ++ qs) := by
  induction h with
  | nil => exact h'
  | other hpiece _ ih => exact .other hpiece ih
  | native hcallee _ ih =>
      rw [List.append_assoc]
      exact .native hcallee ih

theorem Plain.announced (h : Plain ps) : Announced P ps := by
  induction ps with
  | nil => exact .nil
  | cons piece ps ih =>
      exact .other (h piece List.mem_cons_self).2
        (ih fun piece' hpiece' => h piece' (List.mem_cons_of_mem _ hpiece'))

/-- **What comes before a native call** announces its callee. -/
theorem Announced.of_native {dst : Option ℕ} {target : Operand} {args : List Value}
    {done : List Piece} (h : Announced P (done ++ .instr (.call dst (.system target) args) :: ps)) :
    ∃ done' callee, done = done' ++ [.instr (.call none (.runtime .prepareSystemCall) [callee])] ∧
      callee.op = target ∧ P callee := by
  generalize hqs : done ++ .instr (.call dst (.system target) args) :: ps = qs at h
  induction h generalizing done with
  | nil => exact absurd hqs (by simp)
  | @other piece qs hpiece _ ih =>
      cases done with
      | nil =>
          obtain ⟨rfl, -⟩ := List.cons.inj hqs
          exact absurd hpiece Bool.noConfusion
      | cons first done =>
          obtain ⟨rfl, htail⟩ := List.cons.inj hqs
          obtain ⟨done', callee, rfl, hcallee⟩ := ih htail
          exact ⟨first :: done', callee, rfl, hcallee⟩
  | @native callee dst' args' qs hcallee _ ih =>
      rw [nativeCall, List.cons_append, List.cons_append, List.nil_append] at hqs
      cases done with
      | nil =>
          obtain ⟨hfirst, -⟩ := List.cons.inj hqs
          cases hfirst
      | cons first done =>
          obtain ⟨rfl, htail⟩ := List.cons.inj hqs
          cases done with
          | nil =>
              obtain ⟨hcall, -⟩ := List.cons.inj htail
              cases hcall
              exact ⟨[], callee, rfl, rfl, hcallee⟩
          | cons second done =>
              obtain ⟨rfl, hrest⟩ := List.cons.inj htail
              obtain ⟨done', callee', rfl, hcallee'⟩ := ih hrest
              exact ⟨_ :: _ :: done', callee', rfl, hcallee'⟩

instance : CodeRelation (AppendsAnnounced P) where
  refl s := ⟨[], by simp, .nil⟩
  trans h h' := by
    obtain ⟨ps, hps, hannounced⟩ := h
    obtain ⟨qs, hqs, hannounced'⟩ := h'
    exact ⟨ps ++ qs, by rw [hqs, hps, List.append_assoc], hannounced.append hannounced'⟩
  extend _ hplain _ := ⟨_, rfl, hplain.announced⟩

instance : MovesRelation (AppendsAnnounced P) where
  move _ _ := ⟨[], by simp, .nil⟩

instance : BehaviourRelation (AppendsAnnounced P) where
  behaviour {f} hf _ _ := by
    refine ⟨_, rfl, .other ?_ .nil⟩
    cases f <;> first | rfl | exact absurd hf Bool.noConfusion

theorem nativeRelation_announced {Q : Value → Prop} (h : ∀ v, Q v → P v) :
    NativeRelation Q (AppendsAnnounced P) where
  native {s n callee dst args} hcallee _ := by
    refine ⟨_, rfl, ?_⟩
    rw [← List.append_nil (nativeCall callee dst args)]
    exact .native (h callee hcallee) .nil

instance (offset : ℕ) : Emits (AppendsAnnounced P) (setRetPointer offset) where
  effect h := by
    rw [runs_modify.mp h]
    exact ⟨[], by simp, .nil⟩

instance (offset : ℤ) : Emits (AppendsAnnounced P) (setStackPointer offset) where
  effect h := by
    rw [runs_modify.mp h]
    exact ⟨[], by simp, .nil⟩

end Announced

/-- A value is the callee of the native function an instruction calls. -/
def BytecodeInstruction.IsCallee (ins : BytecodeInstruction) (engine : Engine) (callee : Value) :
    Prop :=
  ∃ function, ins.systemFunction engine = some function ∧ Asllvm.IsCallee function callee

/-- **The code of every instruction is announced**: it calls no other native function than that of
the instruction. -/
theorem translateOpcode_emits_announced {P : Value → Prop} (stack : StackFrame) (jumps : JumpTables)
    (ins : BytecodeInstruction) (hP : ∀ callee, ins.IsCallee stack.engine callee → P callee) :
    Emits (AppendsAnnounced P) (translateOpcode stack jumps ins) := by
  cases hends : ins.bc.endsBlock with
  | true => exact translateOpcode_emits_of_endsBlock stack jumps ins hends
  | false =>
      have hordinary : Emits (AppendsAnnounced P) (translateOrdinary stack ins) :=
        translateOrdinary_emits_of_calls stack ins fun function hfunction =>
          nativeRelation_announced fun callee hcallee => hP callee ⟨function, hfunction, hcallee⟩
      rw [translateOpcode_of_ordinary stack jumps ins hends]
      infer_instance

/-- **The code a frame can be in is announced**, and calls the native function of the instruction
that runs. -/
theorem Implementation.Code.announced {impl : Implementation} {current : Option ℕ} {qs : List Piece}
    {E : Position → Prop} (h : impl.Code current qs E) : Announced (fun callee =>
      ∃ ins ∈ impl.bytecode, current = some ins.offset ∧ ins.IsCallee impl.context.engine callee)
      qs := by
  cases h with
  | rest => exact .nil
  | structures hlocal =>
      obtain ⟨ps, hout, hannounced⟩ :=
        (emitAllocateLocalStructures_emits (R := AppendsAnnounced _) impl.context).effect hlocal
      rwa [hout]
  | @instruction ins sp qs p q hcode hcurrent =>
      obtain ⟨st, t, s', hat, -, rfl, hruns, -⟩ := hcode
      have hengine : impl.translation.stack.engine = impl.context.engine :=
        congrArg FunctionContext.engine hat.stack_eq
      have hemits : Emits (AppendsAnnounced fun callee => ∃ ins ∈ impl.bytecode,
          current = some ins.offset ∧ ins.IsCallee impl.context.engine callee)
          (translateOpcode impl.translation.stack impl.translation.jumps ins) :=
        translateOpcode_emits_announced _ _ ins fun callee hcallee =>
          ⟨ins, hat.mem, hcurrent, hengine ▸ hcallee⟩
      obtain ⟨ps, hout, hannounced⟩ := hemits.effect hruns
      rwa [hout]

/-! ### The calling function -/

/-- The native function that the instruction a frame runs calls. -/
def Frame.systemFunction {program : Program} (frame : Frame program) : Option ScriptFunction :=
  (frame.impl.bytecode.find? fun ins => frame.state.current = some ins.offset).bind
    (·.systemFunction frame.impl.context.engine)

/-- If the last thing an activation has done was to announce a callee, that is where
`m_callingSystemFunction` points to. -/
def Frame.Announces {program : Program} (frame : Frame program) (calling : Word) : Prop :=
  ∃ done ps, frame.Place done ps ∧
    ∀ done' callee, done = done' ++ [.instr (.call none (.runtime .prepareSystemCall) [callee])] →
      calling = callee.eval frame.env frame.state.regs

/-- **Every step keeps that.** -/
theorem Frame.announces_invariant (program : Program) :
    Frame.Invariant fun (frame : Frame program) calling => frame.Announces calling where
  starts h := by
    obtain ⟨ps, hinside⟩ := h.inside
    exact ⟨[], ps, .inside hinside, fun done' callee hdone => absurd hdone (by simp)⟩
  inside h hcall := by
    obtain ⟨done, ps, hplace, -⟩ := h
    exact ⟨done, ps, hplace.inside_of_call hcall⟩
  next h hnext := by
    obtain ⟨done, ps, hplace, -⟩ := h
    cases hplace with
    | left hposition hitem =>
        rw [step_of_ret hitem] at hnext
        cases hnext
    | inside hinside =>
        rcases hinside.next hnext with ⟨piece, ps', rfl, hadvances, hinside'⟩ |
          ⟨n, cond, state, ps', rfl, -, hitem, rfl⟩ | ⟨ps', hinside'⟩
        · refine ⟨_, ps', .inside hinside', fun done' callee hdone => ?_⟩
          -- the piece that was run is no call
          obtain ⟨-, hpiece⟩ := List.append_inj' hdone rfl
          obtain rfl := List.singleton_inj.mp hpiece
          cases hadvances with
          | instr hitem hexec => exact absurd hexec (Option.some_ne_none _).symm
        · exact ⟨[], [], .left rfl hitem, fun done' callee hdone => absurd hdone (by simp)⟩
        · exact ⟨[], ps', .inside hinside', fun done' callee hdone => absurd hdone (by simp)⟩
  answer value mem h hcall _ hprepare := by
    obtain ⟨done, ps, hplace, -⟩ := h
    obtain ⟨ps', rfl, hinside'⟩ := (hplace.inside_of_call hcall).call hcall
    refine ⟨_, ps', .inside (hinside' _ _), fun done' callee hdone => ?_⟩
    obtain ⟨-, hpiece⟩ := List.append_inj' hdone rfl
    obtain ⟨rfl, rfl, rfl⟩ := Instr.call.inj (Piece.instr.inj (List.singleton_inj.mp hpiece))
    exact hprepare rfl
  leave _ _ hwaits hcall := by
    obtain ⟨done, ps, dst, target, args, hinside, -⟩ := hwaits
    obtain ⟨ps', -, hinside'⟩ := hinside.call hcall
    refine ⟨_, ps', .inside (hinside' _ _), fun done' callee hdone => ?_⟩
    obtain ⟨-, hpiece⟩ := List.append_inj' hdone rfl
    obtain ⟨-, hf, -⟩ := Instr.call.inj (Piece.instr.inj (List.singleton_inj.mp hpiece))
    cases hf

namespace Chain

variable {program : Program}

/-- Whenever a native function is called next, `m_callingSystemFunction` is **its descriptor**. -/
def KnowsCallee (chain : Chain program) : Prop :=
  ∀ frame rest dst target args, chain.frames = frame :: rest →
    frame.step = .call dst (.system target) args →
    ∃ function, frame.systemFunction = some function ∧
      chain.calling = program.symbols.descriptor function.id

/-- Whenever a native function is called next, **its code lies where its descriptor does**: the code
that is registered for it, or the one that was looked up in the virtual table. -/
def CodeIsDescriptor (chain : Chain program) : Prop :=
  ∀ frame rest dst target args, chain.frames = frame :: rest →
    frame.step = .call dst (.system target) args →
    ∃ function, frame.systemFunction = some function ∧
      (if function.sysFuncIntf.callConv = .ICC_VIRTUAL_THISCALL then
        target.eval frame.env frame.state.regs else program.symbols.systemFunction function.id) =
      program.symbols.descriptor function.id

variable {chain chain' : Chain program}

/-- **The address that is called is in the context**: that of the native function of the instruction
that runs, or the one that was looked up in the virtual table. -/
theorem native_of_announces (h : chain.Fulfils Frame.Announces) {frame : Frame program} {rest : List (Frame program)}
    {dst : Option ℕ} {target : Operand} {args : List Value} (hframes : chain.frames = frame :: rest)
    (hcall : frame.step = .call dst (.system target) args) :
    chain.calling = target.eval frame.env frame.state.regs ∧
      ∃ function, frame.systemFunction = some function ∧
        (function.sysFuncIntf.callConv = .ICC_VIRTUAL_THISCALL ∨
          target = .systemFunction function.id) := by
  obtain ⟨frame', rest', hframes', ⟨done, ps, hplace, hannounced⟩, -⟩ := h
  obtain ⟨rfl, rfl⟩ := List.cons.inj (hframes.symm.trans hframes')
  obtain ⟨E, hcode, hremains⟩ := hplace.inside_of_call hcall
  obtain ⟨ps', rfl, -⟩ := hremains.call hcall
  obtain ⟨done', callee, hdone, rfl, ins, hins, hcurrent, function, hfunction, hcallee⟩ :=
    hcode.announced.of_native
  refine ⟨?_, function, ?_, hcallee.op⟩
  · rw [hannounced done' callee hdone, Value.eval, hcallee.ty, Ty.truncate_ptr]
  · have hfind : (frame.impl.bytecode.find? fun ins => frame.state.current = some ins.offset) =
        some ins := by
      cases hfind : frame.impl.bytecode.find? fun ins => frame.state.current = some ins.offset with
      | none =>
          exact absurd (List.find?_eq_none.mp hfind ins hins) (by simp [hcurrent])
      | some ins' =>
          have hoffset := List.find?_some hfind
          rw [decide_eq_true_eq, hcurrent] at hoffset
          rw [frame.impl.walked.eq_of_offset hins (List.mem_of_find?_eq_some hfind)
            (Option.some.inj hoffset)]
    rw [Frame.systemFunction, hfind]
    exact hfunction

/-- **One chain**: the context knows the callee exactly where its code is its descriptor. -/
theorem knowsCallee_iff (h : chain.Fulfils Frame.Announces) :
    chain.KnowsCallee ↔ chain.CodeIsDescriptor := by
  constructor
  · intro hknows frame rest dst target args hframes hcall
    obtain ⟨function, hfunction, hcalling⟩ := hknows frame rest dst target args hframes hcall
    obtain ⟨haddress, function', hfunction', hcallee⟩ := native_of_announces h hframes hcall
    obtain rfl := Option.some.inj (hfunction.symm.trans hfunction')
    refine ⟨function, hfunction, ?_⟩
    rw [← hcalling, haddress]
    split
    · rfl
    · next hvirtual =>
        obtain rfl := hcallee.resolve_left hvirtual
        rw [Operand.eval, frame.symbols]
  · intro hcode frame rest dst target args hframes hcall
    obtain ⟨function, hfunction, haddress⟩ := hcode frame rest dst target args hframes hcall
    obtain ⟨hcalling, function', hfunction', hcallee⟩ := native_of_announces h hframes hcall
    obtain rfl := Option.some.inj (hfunction.symm.trans hfunction')
    refine ⟨function, hfunction, ?_⟩
    rw [hcalling, ← haddress]
    split
    · rfl
    · next hvirtual =>
        obtain rfl := hcallee.resolve_left hvirtual
        rw [Operand.eval, frame.symbols]

end Chain

/-- **The context knows which native function runs** in every chain of an execution, however deep the
calls are nested, exactly when every function that is called lies where its descriptor does: what is
stored is the address of the code. -/
theorem calling_function_known_iff {program : Program} {chain : Chain program}
    (hstarts : chain.Starts) :
    (∀ chain', chain.Reaches chain' → chain'.KnowsCallee) ↔
      ∀ chain', chain.Reaches chain' → chain'.CodeIsDescriptor :=
  forall₂_congr fun _ hreaches =>
    Chain.knowsCallee_iff (hreaches.fulfils (Frame.announces_invariant program) hstarts)

/-- The native function an instruction calls is one the engine knows. -/
theorem BytecodeInstruction.exists_getFunctionById {ins : BytecodeInstruction} {engine : Engine}
    {function : ScriptFunction} (h : ins.systemFunction engine = some function) :
    ∃ id, engine.getFunctionById id = some function := by
  unfold systemFunction at h
  split at h
  · exact ⟨_, h⟩
  · exact ⟨_, h⟩
  · split at h
    · exact absurd h (Option.some_ne_none _).symm
    · exact ⟨_, h⟩
  · exact absurd h (Option.some_ne_none _).symm

/-- Neither function that `procedureContext` knows is virtual. -/
theorem procedureContext_systemFunction {ins : BytecodeInstruction} {function : ScriptFunction}
    (h : ins.systemFunction (procedureContext 0).engine = some function) :
    function.sysFuncIntf.callConv ≠ .ICC_VIRTUAL_THISCALL := by
  obtain ⟨id, hid⟩ := ins.exists_getFunctionById h
  have hmem := List.mem_of_find?_eq_some hid
  rw [List.mem_cons, List.mem_singleton] at hmem
  rcases hmem with rfl | rfl
  · decide
  · decide

/-- Where the descriptors and the code of native functions lie at the same address, the context knows
the callee of every call, also when the function that makes it was itself called. -/
theorem calling_function_known_iff_nested :
    ∃ (impl : Implementation) (chain : Chain (nestedProgram impl)), chain.Starts ∧
      (∃ callee caller : Frame (nestedProgram impl), chain.Reaches ⟨[callee, caller], 2⟩ ∧
        callee.step = .call none (.system (.systemFunction 1)) []) ∧
      ∀ chain', chain.Reaches chain' → chain'.KnowsCallee := by
  obtain ⟨impl, first, caller, callee, hcontext, -, -, hstarts, hcontext', hreaches, -, -, -, -, -,
    hcall⟩ :=
    exists_chain_nested
  have hchain : Chain.Starts ⟨[first], 0⟩ := ⟨first, rfl, hstarts⟩
  refine ⟨impl, ⟨[first], 0⟩, hchain, ⟨callee, caller, hreaches, hcall⟩,
    (calling_function_known_iff hchain).mpr ?_⟩
  intro chain' hreaches' frame rest dst target args hframes hnative
  obtain ⟨-, function, hfunction, -⟩ := Chain.native_of_announces
    (hreaches'.fulfils (Frame.announces_invariant _) hchain) hframes hnative
  have hengine : frame.impl.context.engine = (procedureContext 0).engine := by
    refine hreaches'.impls (P := fun impl => impl.context.engine = (procedureContext 0).engine)
      (fun address impl' himpl => ?_) ?_ frame (hframes ▸ List.mem_cons_self)
    · obtain ⟨-, heq⟩ := Option.ite_none_right_eq_some.mp himpl
      obtain rfl := Option.some.inj heq
      rw [hcontext]
      rfl
    · rw [List.forall_mem_singleton, hcontext']
      rfl
  obtain ⟨ins, -, hins⟩ := Option.bind_eq_some_iff.mp hfunction
  rw [hengine] at hins
  refine ⟨function, hfunction, ?_⟩
  rw [if_neg (procedureContext_systemFunction hins)]
  rfl

/-- **What is stored is the address of the code**, when a C function is called. -/
theorem calling_function_not_known : ∃ chain chain' : Chain apartProgram, chain.Starts ∧
    chain.Reaches chain' ∧ ¬ chain'.KnowsCallee := by
  obtain ⟨impl, -, -, hparameters, htotal, hentry, -⟩ := exists_callsNative
  obtain ⟨frame, rfl, -, -, hstarts⟩ := Frame.exists_starts apartProgram impl (by omega)
    (by rw [hparameters]; decide) (Nat.zero_le _) [] fun _ => 0
  obtain ⟨mem, hreaches, hcall⟩ := hstarts.reaches_native htotal hentry [] 0
  refine ⟨_, _, ⟨frame, rfl, hstarts⟩, hreaches, fun hknows => ?_⟩
  obtain ⟨function, -, hcalling⟩ := hknows _ [] _ _ _ rfl hcall
  exact absurd hcalling (by change (2 : Word) ≠ 1; decide)

end Asllvm
