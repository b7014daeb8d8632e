import Asllvm.StackDepth
import Asllvm.VmEntry

/-!
# What the Entry Thunk Owes the VM

Two obligations of the thunk, settled for every frame it can be entered with.

The **arguments**: the thunk reads the slots downwards from the stack frame pointer, the VM keeps
them upwards from there, so they meet in the first slot only.

The **reports**: a check of the thunk that fires reports the state and goes on. Behind the call
that is what is wanted, before it the implementation is called all the same.

## Main results

* `vmEntryThunk_passes_iff` — the thunk passes the arguments of the VM iff the function has one
  slot at most.
* `translateBytecode_retPointer` — the program pointer is left at a `RET`.
* `vmEntryThunk_reports_iff` — an entry is reported as it should be iff the thunk meets no null
  object.
-/

open StateExcept Slots

namespace Asllvm

/-- A call of the implementation of a function. -/
abbrev Request.Enters (function : ScriptFunction) (call : Request) : Prop :=
  call.callee = .script (.scriptFunction function.id)

/-- A call of `set_internal_exception`. -/
abbrev Request.Reports (call : Request) : Prop := call.callee = .runtime .setInternalException

/-! ### The calls of an entry -/

/-- The call a check makes that leaves with the given state, if it fires. -/
def reportOf (fired : Bool) (state : Word) (mem : Bytes.Mem) : List Request :=
  if fired then [⟨.runtime .setInternalException, [state], mem⟩] else []

theorem reports_of_mem_reportOf {fired : Bool} {state : Word} {mem : Bytes.Mem} {call : Request}
    (h : call ∈ reportOf fired state mem) : call.Reports := by
  cases fired with
  | false => exact absurd h List.not_mem_nil
  | true => rw [List.mem_singleton.mp h]

/-- A call of the implementation reports nothing. -/
theorem Request.Enters.not_reports {function : ScriptFunction} {call : Request}
    (h : call.Enters function) : ¬ call.Reports :=
  fun hreports => Callee.noConfusion (h.symm.trans hreports)

namespace World

variable {host : Host} {env : Env} {w : World} {fired : Bool} {state : Word}
  {function : ScriptFunction} {retPointer : Option ℕ} {args : List Word}

theorem reportIf_calls :
    (w.reportIf host fired state).calls = reportOf fired state w.mem ++ w.calls := by
  cases fired <;> rfl

variable (host env w fired function retPointer args)

/-- The calls of an entry: a null object may be reported, the implementation is called, and the
state it returns is reported unless it is `Ok`. -/
theorem leave_calls : ∃ (call : Request) (before : List Request) (outcome : Word)
    (mem : Bytes.Mem), call.Enters function ∧ call.args = args ∧
    before = reportOf fired VmState.ExceptionNullPointer.word w.mem ++ w.calls ∧
    outcome = Ty.vmState.truncate (host (call :: before)).1 ∧
    (w.leave env host function retPointer fired args).calls =
      reportOf (decide (outcome ≠ VmState.Ok.word)) outcome mem ++ call :: before := by
  let w₁ := w.reportIf host fired VmState.ExceptionNullPointer.word
  refine ⟨⟨.script (.scriptFunction function.id), args, w₁.mem⟩, w₁.calls, _,
    (w.enter host function fired args).mem, rfl, rfl, reportIf_calls, rfl, ?_⟩
  change ((w.enter host function fired args).reportOutcome host).calls = _
  rw [reportOutcome, reportIf_calls]
  rfl

/-- The implementation is called once. -/
theorem leave_enters (hw : w.calls = []) : ∃ call : Request, call.Enters function ∧
    call.args = args ∧ call ∈ (w.leave env host function retPointer fired args).calls ∧
    ∀ other ∈ (w.leave env host function retPointer fired args).calls, other.Enters function →
      other = call := by
  obtain ⟨call, before, outcome, mem, henters, hargs, rfl, -, hcalls⟩ := leave_calls host env w
    fired function retPointer args
  refine ⟨call, henters, hargs, by rw [hcalls]; simp, fun other hother hother' => ?_⟩
  rw [hcalls, hw, List.append_nil, List.mem_append, List.mem_cons] at hother
  rcases hother with h | rfl | h
  · exact absurd (reports_of_mem_reportOf h) hother'.not_reports
  · rfl
  · exact absurd (reports_of_mem_reportOf h) hother'.not_reports

end World

/-! ### The arguments -/

/-- `set_internal_exception` leaves the memory the thunk reads alone. -/
def Host.KeepsMemory (host : Host) : Prop :=
  ∀ (request : Request) (calls : List Request), request.Reports →
    (host (request :: calls)).2 = request.mem

/-- **The arguments of an entry are those of the VM**: whatever the frame of the VM holds, the
implementation is called, and every slot is passed as the VM keeps it. -/
def PassesVmArguments (engine : Engine) (function : ScriptFunction) (cfg : Cfg) : Prop :=
  ∀ (env : Env) (host : Host) (regs : Regs) (mem : Bytes.Mem), env.blocks = cfg.blocks →
    host.KeepsMemory → ∃ calls mem', Finishes env host [] (.enter regs mem) calls mem' ∧
      (∃ call ∈ calls, call.Enters function) ∧
      ∀ call ∈ calls, call.Enters function → ∀ k type ty,
        (scriptCallSlots engine function)[k]? = some type → toLlvmType type = .ok ty →
        call.args[hiddenArguments function + k]? = some (valueAt mem (vmSlotAddress
          (stackFramePointer env mem) (slotOffset (scriptCallSlots engine function) k)) ty)

/-- A slot takes one dword or two. -/
theorem DataType.Supported.size_le {type : DataType} (h : type.Supported) :
    type.sizeOnStackDWords ≤ 2 := by
  rw [h.size]
  split
  · cases type.tokenType <;> decide
  · exact Nat.le_refl _

/-- The value of a slot is a number or a pointer. -/
theorem toLlvmType_firstClass {type : DataType} {ty : Ty} (hsupported : type.Supported)
    (hty : toLlvmType type = .ok ty) : ty ≠ .void ∧ ∀ id, ty ≠ .struct id := by
  by_cases hprim : type.isPrimitive = true
  · obtain ⟨hother, hvoid⟩ := hsupported.token hprim
    cases href : type.isReference with
    | true =>
        simp only [toLlvmType, hprim, href, if_true, except_bind_ok] at hty
        obtain ⟨base, -, hbase⟩ := hty
        obtain rfl := Except.ok.inj hbase
        exact ⟨by simp, by simp⟩
    | false =>
        have hvoid := hvoid href
        cases htok : type.tokenType <;>
          simp_all [toLlvmType, TokenType.toLlvmType] <;> subst hty <;> simp
  · obtain ⟨id, rfl⟩ := toLlvmType_eq_ptr (by simpa using hprim) hty
    exact ⟨by simp, by simp⟩

/-- A slot is read alike by the thunk and by the VM if it is the first one. -/
theorem thunkSlotAddress_zero (framePointer : Word) :
    thunkSlotAddress framePointer 0 = vmSlotAddress framePointer 0 := by
  rw [thunkSlotAddress, vmSlotAddress, Nat.mul_zero, BitVec.sub_zero, BitVec.add_zero]

section Arguments

variable {T : Translation} {cfg : Cfg}

/-- One slot is read where the VM keeps it. -/
theorem passesVmArguments_of_length_le
    (hfunc : T.stack.scriptFunction.funcType = .asFUNC_SCRIPT)
    (hsupported : T.stack.scriptFunction.Supported T.stack.engine)
    (hthunk : createVmEntryThunk T = .ok cfg)
    (hlength : (scriptCallSlots T.stack.engine T.stack.scriptFunction).length ≤ 1) :
    PassesVmArguments T.stack.engine T.stack.scriptFunction cfg := by
  intro env host regs mem henv _
  obtain ⟨fired, args, hfinishes, -, hpasses⟩ :=
    createVmEntryThunk_finishes hfunc hsupported hthunk henv host regs ⟨mem, []⟩
  obtain ⟨call, henters, hargs, hmem, honce⟩ := World.leave_enters host env ⟨mem, []⟩ fired
    T.stack.scriptFunction T.emit.retPointer args rfl
  refine ⟨_, _, hfinishes, ⟨call, hmem, henters⟩, fun call' hcall' henters' k type ty hk hty => ?_⟩
  obtain rfl := honce call' hcall' henters'
  obtain ⟨ty', mem', hty', harg, hmem'⟩ := hpasses k type hk
  obtain rfl := Except.ok.inj (hty.symm.trans hty')
  have hk0 : k = 0 := by
    have := (List.getElem?_eq_some_iff.mp hk).1
    omega
  subst hk0
  obtain rfl : mem' = mem := hmem'.resolve_right fun h => Nat.lt_irrefl 0 h.1
  have hzero : slotOffset (scriptCallSlots T.stack.engine T.stack.scriptFunction) 0 = 0 := rfl
  rw [hargs, harg, hzero, thunkSlotAddress_zero]

/-- A frame of the VM that holds a single `1`, at a slot `o` dwords after the first one: the
registers of the VM are at address `0`, and the stack frame pointer is `256`. -/
def frameWithOneAt (o : ℕ) : Bytes.Mem :=
  Bytes.write (Bytes.write (fun _ => 0) 8 8 256) (256 + 4 * o) 1 1

/-- An activation of a thunk with the registers of the VM at address `0`. -/
def Env.atZero (blocks : BlockId → List Item) : Env where
  blocks := blocks
  args := [0, 0]
  layout := ⟨fun _ => 0, fun _ => 0, fun _ => by decide, fun _ _ _ => .inl (Nat.le_refl _)⟩
  symbols := ⟨fun _ => 0, fun _ => 0, fun _ => 0, fun _ => 0⟩
  floats := ⟨fun _ _ _ _ => 0, fun _ _ _ _ => false, fun _ _ _ _ => 0⟩

/-- A host that does nothing. -/
def Host.idle : Host
  | [] => (0, fun _ => 0)
  | request :: _ => (0, request.mem)

theorem Host.idle_keepsMemory : Host.idle.KeepsMemory := fun _ _ _ => rfl

/-- What the thunk and the VM read at a second slot. -/
theorem frameWithOneAt_read {o : ℕ} (ho : o = 1 ∨ o = 2) {n : ℕ} (hn : n ∈ [1, 2, 4, 8]) :
    Bytes.read (frameWithOneAt o) (thunkSlotAddress 256 o).toNat n = 0 ∧
      Bytes.read (frameWithOneAt o) (vmSlotAddress 256 o).toNat n = 1 := by
  have h : ∀ o ∈ [1, 2], ∀ n ∈ [1, 2, 4, 8],
      Bytes.read (frameWithOneAt o) (thunkSlotAddress 256 o).toNat n = 0 ∧
        Bytes.read (frameWithOneAt o) (vmSlotAddress 256 o).toNat n = 1 := by decide +kernel
  exact h o (by simpa using ho) n hn

theorem stackFramePointer_frameWithOneAt {o : ℕ} (ho : o = 1 ∨ o = 2)
    (blocks : BlockId → List Item) :
    stackFramePointer (.atZero blocks) (frameWithOneAt o) = 256 := by
  have h : ∀ o ∈ [1, 2], Bytes.read (frameWithOneAt o) 8 8 = 256 := by decide +kernel
  exact h o (by simpa using ho)

/-- Two slots are not read where the VM keeps them: the second one is missed. -/
theorem not_passesVmArguments
    (hfunc : T.stack.scriptFunction.funcType = .asFUNC_SCRIPT)
    (hsupported : T.stack.scriptFunction.Supported T.stack.engine)
    (hthunk : createVmEntryThunk T = .ok cfg)
    (hlength : 1 < (scriptCallSlots T.stack.engine T.stack.scriptFunction).length) :
    ¬ PassesVmArguments T.stack.engine T.stack.scriptFunction cfg := by
  intro hcontract
  obtain ⟨type₀, type₁, rest, hslots⟩ : ∃ type₀ type₁ rest,
      scriptCallSlots T.stack.engine T.stack.scriptFunction = type₀ :: type₁ :: rest := by
    rcases hsplit : scriptCallSlots T.stack.engine T.stack.scriptFunction with
      _ | ⟨type₀, _ | ⟨type₁, rest⟩⟩
    · simp [hsplit] at hlength
    · simp [hsplit] at hlength
    · exact ⟨type₀, type₁, rest, rfl⟩
  have hsupported₀ := hsupported.slots type₀ (by simp [hslots])
  have hsupported₁ := hsupported.slots type₁ (by simp [hslots])
  have hoffset : slotOffset (type₀ :: type₁ :: rest) 1 = type₀.sizeOnStackDWords := rfl
  have ho : type₀.sizeOnStackDWords = 1 ∨ type₀.sizeOnStackDWords = 2 := by
    have hpos := hsupported₀.size_pos
    have hle := hsupported₀.size_le
    omega
  -- in the frame that holds a single `1`, at the second slot, the thunk reads a zero
  let env := Env.atZero cfg.blocks
  let mem := frameWithOneAt type₀.sizeOnStackDWords
  have hframe : stackFramePointer env mem = 256 := stackFramePointer_frameWithOneAt ho _
  obtain ⟨calls, mem', hfinishes, -, hvm⟩ :=
    hcontract env .idle (fun _ => 0) mem rfl Host.idle_keepsMemory
  obtain ⟨fired, args, hfinishes', -, hpasses⟩ :=
    createVmEntryThunk_finishes hfunc hsupported hthunk (show env.blocks = _ from rfl) .idle (fun _ => 0)
      ⟨mem, []⟩
  obtain ⟨call, henters, hargs, hmem, -⟩ := World.leave_enters .idle env ⟨mem, []⟩ fired
    T.stack.scriptFunction T.emit.retPointer args rfl
  obtain ⟨rfl, -⟩ := hfinishes.det hfinishes'
  obtain ⟨ty, mem₁, hty, harg, hmem₁⟩ := hpasses 1 type₁ (by rw [hslots]; rfl)
  have hkept : mem₁ = mem := by
    rcases hmem₁ with rfl | ⟨-, rfl⟩
    · rfl
    · cases fired <;> rfl
  have hvm₁ := hvm call hmem henters 1 type₁ ty (by rw [hslots]; rfl) hty
  rw [hargs, harg, hkept, hslots, hoffset, hframe, Option.some.injEq] at hvm₁
  obtain ⟨hvoid, hstruct⟩ := toLlvmType_firstClass hsupported₁ hty
  have hsize : ty.storeSize ∈ [1, 2, 4, 8] := by
    cases ty <;> simp_all [Ty.storeSize]
  obtain ⟨hzero, hone⟩ := frameWithOneAt_read ho hsize
  have hbit : ty.truncate 0 = ty.truncate 1 :=
    (congrArg ty.truncate hzero).symm.trans (hvm₁.trans (congrArg ty.truncate hone))
  cases ty with
  | void => exact hvoid rfl
  | struct id => exact hstruct id rfl
  | ptr ty => exact absurd hbit (by rw [Ty.truncate_ptr, Ty.truncate_ptr]; decide)
  | _ => exact absurd hbit (by decide)

end Arguments

/-- What `translate_bytecode` leaves behind is about the function translated. -/
theorem translateBytecode_stack {context : FunctionContext}
    {bytecode : List BytecodeInstruction} {T : Translation}
    (h : translateBytecode context bytecode = .ok T) : T.stack.toFunctionContext = context := by
  obtain ⟨-, s₀, st₁, hlocal, -⟩ := runs_translateBytecode h
  exact (emitAllocateLocalStructures_stack hlocal).1

/-- **The thunk passes the arguments of the VM iff the function has one slot at most**, hidden ones
included. -/
theorem vmEntryThunk_passes_iff {context : FunctionContext} {bytecode : List BytecodeInstruction}
    {T : Translation} {cfg : Cfg} (hfunc : context.scriptFunction.funcType = .asFUNC_SCRIPT)
    (hsupported : context.scriptFunction.Supported context.engine)
    (htranslate : translateBytecode context bytecode = .ok T)
    (hthunk : createVmEntryThunk T = .ok cfg) :
    PassesVmArguments context.engine context.scriptFunction cfg ↔
      (scriptCallSlots context.engine context.scriptFunction).length ≤ 1 := by
  obtain rfl := translateBytecode_stack htranslate
  constructor
  · intro hcontract
    by_contra hlength
    exact not_passesVmArguments hfunc hsupported hthunk (Nat.lt_of_not_le hlength) hcontract
  · exact passesVmArguments_of_length_le hfunc hsupported hthunk

/-- A function translated on its own. -/
def ScriptFunction.alone (function : ScriptFunction) : FunctionContext where
  engine := .ofFunctions []
  config := ⟨false, true⟩
  scriptFunction := function

/-- `void f(int, ..., int)`. -/
def ScriptFunction.ofInts (n : ℕ) : ScriptFunction :=
  .free 1 (.primitive .ttVoid) (List.replicate n (.primitive .ttInt)) 0

theorem ScriptFunction.ofInts_supported (engine : Engine) (n : ℕ) :
    (ScriptFunction.ofInts n).Supported engine where
  slots type htype := by
    have hmem : type ∈ List.replicate n (DataType.primitive .ttInt) := by
      simpa [scriptCallSlots, ScriptFunction.ReturnsOnStack, ofInts, free, DataType.primitive]
        using htype
    rw [List.eq_of_mem_replicate hmem]
    exact DataType.primitive_supported (by decide) (by decide)
  returned h := absurd rfl h.1

/-- The thunk of an empty function is created. -/
theorem exists_thunk_ofInts {n : ℕ} (hn : n = 1 ∨ n = 2) :
    ∃ T cfg, translateBytecode (ScriptFunction.ofInts n).alone retBytecode = .ok T ∧
      createVmEntryThunk T = .ok cfg := by
  have h : ∀ n ∈ [1, 2], ∃ T, translateBytecode (ScriptFunction.ofInts n).alone retBytecode =
      .ok T ∧ (createVmEntryThunk T).toOption.isSome = true := by
    intro n hn
    rcases List.mem_pair.mp hn with rfl | rfl <;> exact exists_ok_of_map (by decide +kernel)
  obtain ⟨T, hT, hsome⟩ := h n (by simpa using hn)
  obtain ⟨cfg, hcfg⟩ := exists_ok_of_isSome hsome
  exact ⟨T, cfg, hT, hcfg⟩

/-- The iff for `void f(int)`. -/
theorem vmEntryThunk_passes_iff_int : ∃ T cfg,
    translateBytecode (ScriptFunction.ofInts 1).alone retBytecode = .ok T ∧
    createVmEntryThunk T = .ok cfg ∧
    (PassesVmArguments (.ofFunctions []) (.ofInts 1) cfg ↔
      (scriptCallSlots (.ofFunctions []) (.ofInts 1)).length ≤ 1) := by
  obtain ⟨T, cfg, hT, hcfg⟩ := exists_thunk_ofInts (.inl rfl)
  exact ⟨T, cfg, hT, hcfg,
    vmEntryThunk_passes_iff rfl (ScriptFunction.ofInts_supported _ 1) hT hcfg⟩

/-- **The second of two arguments is not that of the VM.** -/
theorem vmEntryThunk_not_passes : ¬ ∀ (context : FunctionContext)
    (bytecode : List BytecodeInstruction) (T : Translation) (cfg : Cfg),
    context.scriptFunction.funcType = .asFUNC_SCRIPT →
    context.scriptFunction.Supported context.engine →
    translateBytecode context bytecode = .ok T → createVmEntryThunk T = .ok cfg →
    PassesVmArguments context.engine context.scriptFunction cfg := by
  intro hclaim
  obtain ⟨T, cfg, hT, hcfg⟩ := exists_thunk_ofInts (.inr rfl)
  have hstack := translateBytecode_stack hT
  have hcontract := hclaim _ _ T cfg rfl (ScriptFunction.ofInts_supported _ 2) hT hcfg
  refine not_passesVmArguments (T := T) ?_ ?_ hcfg ?_ ?_
  all_goals rw [hstack]
  · rfl
  · exact ScriptFunction.ofInts_supported _ 2
  · decide
  · exact hcontract

/-! ### The program pointer -/

/-- A `RET` moves the return pointer to itself. -/
theorem translateRet_retPointer {stack : StackFrame} {ins : BytecodeInstruction}
    {s u : EmitState} {t : Terminator} (h : Runs (translateRet stack ins) s t u) :
    u.retPointer = some ins.offset := by
  rw [translateRet] at h
  dsimp only at h
  have hlast : ∀ {x : EmitM Unit} {s u : EmitState} {t : Terminator}, Runs (do
      x
      modify fun s => { s with retPointer := some ins.offset }
      pure (.ret VmState.Ok.const.op)) s t u → u.retPointer = some ins.offset := by
    intro x s u t h
    simp only [runs_bind, runs_modify, runs_pure] at h
    obtain ⟨_, _, -, _, _, rfl, -, rfl⟩ := h
    rfl
  split at h
  · obtain ⟨llvmType, s', -, h⟩ := runs_bind.mp h
    split at h
    · obtain ⟨_, _, -, h⟩ := runs_bind.mp h
      exact hlast h
    · obtain ⟨_, _, -, h⟩ := runs_bind.mp h
      exact hlast h
  · exact hlast (x := pure ()) (by simpa using h)

/-- The return pointer after an instruction: only a `RET` moves it. -/
theorem translateOpcode_retPointer {stack : StackFrame} {jumps : JumpTables}
    {ins : BytecodeInstruction} {s u : EmitState} {t : Option Terminator}
    (h : Runs (translateOpcode stack jumps ins) s t u) :
    u.retPointer = if ins.bc = .RET then some ins.offset else s.retPointer := by
  by_cases hret : ins.bc = .RET
  · rw [if_pos hret]
    simp only [translateOpcode, hret, runs_bind, runs_pure] at h
    obtain ⟨_, _, hrun, -, rfl⟩ := h
    exact translateRet_retPointer hrun
  · rw [if_neg hret]
    cases hends : ins.bc.endsBlock with
    | true =>
        have heffect : Emits EmitEffect (translateOpcode stack jumps ins) := by
          rw [translateOpcode]
          cases hbc : ins.bc <;> rw [hbc] at hends hret <;> first
            | exact absurd hends (by decide)
            | exact absurd rfl hret
            | dsimp only
              infer_instance
        exact (heffect.effect h).retPointer
    | false =>
        rw [translateOpcode_of_ordinary stack jumps ins hends, runs_bind] at h
        obtain ⟨_, u', hrun, h⟩ := h
        obtain ⟨-, rfl⟩ := runs_pure.mp h
        exact ((translateOrdinary_emits stack ins).effect hrun).retPointer

/-- The return pointer after some instructions is at the last `RET` of them, by induction from the
end of the scan. -/
theorem forM_translateInstruction_retPointer {stack : StackFrame} {jumps : JumpTables}
    (bytecode : List BytecodeInstruction) {st st' : BuilderState}
    (h : Runs (bytecode.forM (translateInstruction stack jumps)) st () st') :
    (∃ ins ∈ bytecode, ins.bc = .RET ∧ st'.emit.retPointer = some ins.offset) ∨
      (∀ ins ∈ bytecode, ins.bc ≠ .RET) ∧ st'.emit.retPointer = st.emit.retPointer := by
  induction bytecode generalizing st with
  | nil =>
      rw [runs_forM_nil] at h
      subst h
      exact .inr ⟨fun ins hins => absurd hins List.not_mem_nil, rfl⟩
  | cons ins rest ih =>
      obtain ⟨st₁, hins, hrest⟩ := runs_forM_cons.mp h
      obtain ⟨-, -, t, e, hcode, -, -, hemit⟩ := runs_translateInstruction hins
      have hpointer : st₁.emit.retPointer = e.retPointer := (EmitState.mk.inj hemit).2.2.1
      rw [translateOpcode_retPointer hcode] at hpointer
      rcases ih hrest with ⟨ins', hmem, hret, ho⟩ | ⟨hnone, hkept⟩
      · exact .inl ⟨ins', List.mem_cons_of_mem _ hmem, hret, ho⟩
      · by_cases hret : ins.bc = .RET
        · rw [if_pos hret] at hpointer
          exact .inl ⟨ins, List.mem_cons_self, hret, hkept.trans hpointer⟩
        · rw [if_neg hret] at hpointer
          refine .inr ⟨fun ins' hins' => ?_, hkept.trans hpointer⟩
          rcases List.mem_cons.mp hins' with rfl | hins'
          · exact hret
          · exact hnone ins' hins'

/-- **The program pointer is left at a `RET`**, if the bytecode has one. -/
theorem translateBytecode_retPointer {context : FunctionContext}
    {bytecode : List BytecodeInstruction} {T : Translation}
    (h : translateBytecode context bytecode = .ok T) (hret : ∃ ins ∈ bytecode, ins.bc = .RET) :
    ∃ ins ∈ bytecode, ins.bc = .RET ∧ T.emit.retPointer = some ins.offset := by
  obtain ⟨-, s₀, st₁, -, hscan, -, hemit, -⟩ := runs_translateBytecode h
  obtain ⟨ins, hmem, hbc⟩ := hret
  rcases forM_translateInstruction_retPointer bytecode hscan with hlast | ⟨hnone, -⟩
  · rw [hemit]
    exact hlast
  · exact absurd hbc (hnone ins hmem)

/-! ### The reports -/

/-- The states reported, the latest first. -/
def reported (calls : List Request) : List (List Word) :=
  (calls.filter fun call => decide call.Reports).map Request.args

theorem reported_append (calls calls' : List Request) :
    reported (calls ++ calls') = reported calls ++ reported calls' := by
  rw [reported, List.filter_append, List.map_append, reported, reported]

theorem reported_cons {call : Request} {calls : List Request} (h : ¬ call.Reports) :
    reported (call :: calls) = reported calls := by
  rw [reported, List.filter_cons_of_neg (by simpa using h), reported]

theorem reported_reportOf (fired : Bool) (state : Word) (mem : Bytes.Mem) :
    reported (reportOf fired state mem) = if fired then [[state]] else [] := by
  cases fired <;> rfl

/-- The object a method is entered with: the bytecode finds it at offset `0`, so the VM keeps it at
the stack frame pointer. -/
def enteredObject (function : ScriptFunction) (env : Env) (mem : Bytes.Mem) : Option Word :=
  function.objectType.map fun _ => Bytes.read mem (stackFramePointer env mem).toNat 8

/-- **What is owed of one entry**: with a null object the exception is reported and the
implementation is not called; otherwise it is called once, and the state it returns is reported
once, or never if it is `Ok`. The program pointer is left at a `RET` of the bytecode. -/
def ReportsOnce (bytecode : List BytecodeInstruction) (function : ScriptFunction) (env : Env)
    (host : Host) (regs : Regs) (mem : Bytes.Mem) : Prop :=
  ∃ calls mem', Finishes env host [] (.enter regs mem) calls mem' ∧
    (enteredObject function env mem = some 0 → (∀ call ∈ calls, ¬ call.Enters function) ∧
      reported calls = [[VmState.ExceptionNullPointer.word]]) ∧
    (enteredObject function env mem ≠ some 0 → ∃ after call before,
      calls = after ++ call :: before ∧ call.Enters function ∧
      (∀ other ∈ after ++ before, ¬ other.Enters function) ∧
      reported calls = if Ty.vmState.truncate (host (call :: before)).1 = VmState.Ok.word then []
        else [[Ty.vmState.truncate (host (call :: before)).1]]) ∧
    ∃ ins ∈ bytecode, ins.bc = .RET ∧
      Bytes.read mem' (vmRegisters env).toNat 8 = env.symbols.bytecode ins.offset

/-- A list is split in one way at an element with a property that no other element has. -/
theorem append_cons_unique {α : Type} {P : α → Prop} {xs xs' ys ys' : List α} {x x' : α}
    (h : xs ++ x :: ys = xs' ++ x' :: ys') (hx : P x)
    (hothers : ∀ y ∈ xs' ++ ys', ¬ P y) : xs = xs' ∧ x = x' ∧ ys = ys' := by
  rcases List.append_eq_append_iff.mp h with ⟨ws, rfl, hws⟩ | ⟨ws, rfl, hws⟩
  · cases ws with
    | nil => exact ⟨(List.append_nil xs).symm, List.cons.inj hws⟩
    | cons w ws =>
        obtain ⟨rfl, -⟩ := List.cons.inj hws
        exact absurd hx (hothers x (by simp))
  · cases ws with
    | nil => exact ⟨List.append_nil xs', (List.cons.inj hws).1.symm, (List.cons.inj hws).2.symm⟩
    | cons w ws =>
        obtain ⟨rfl, rfl⟩ := List.cons.inj hws
        exact absurd hx (hothers x (by simp))

/-- The reports of an entry, from the run of the thunk: with `Ok` and without a null object there
are none, and every check that fires adds one. -/
theorem createVmEntryThunk_reports_iff {bytecode : List BytecodeInstruction} {T : Translation}
    {cfg : Cfg} {env : Env} {ins : BytecodeInstruction}
    (hfunc : T.stack.scriptFunction.funcType = .asFUNC_SCRIPT)
    (hsupported : T.stack.scriptFunction.Supported T.stack.engine)
    (hobjects : ObjectsAreObjects T.stack.engine T.stack.scriptFunction)
    (hthunk : createVmEntryThunk T = .ok cfg) (henv : env.blocks = cfg.blocks) (host : Host)
    (regs : Regs) (mem : Bytes.Mem) (hins : ins ∈ bytecode) (hbc : ins.bc = .RET)
    (hpointer : T.emit.retPointer = some ins.offset) :
    ReportsOnce bytecode T.stack.scriptFunction env host regs mem ↔
      enteredObject T.stack.scriptFunction env mem ≠ some 0 ∧
      testedObject T.stack.scriptFunction (stackFramePointer env mem) mem ≠ some 0 := by
  obtain ⟨fired, args, hfinishes, hfires, -⟩ :=
    createVmEntryThunk_finishes hfunc hsupported hthunk henv host regs ⟨mem, []⟩
  have hfired := hfires.null hobjects
  obtain ⟨call, before, outcome, mem₂, henters, -, hbefore, houtcome, hcalls⟩ :=
    World.leave_calls host env ⟨mem, []⟩ fired T.stack.scriptFunction T.emit.retPointer args
  rw [List.append_nil] at hbefore
  have hreported : reported (reportOf (decide (outcome ≠ VmState.Ok.word)) outcome mem₂ ++
      call :: before) = (if outcome = VmState.Ok.word then [] else [[outcome]]) ++
        (if fired then [[VmState.ExceptionNullPointer.word]] else []) := by
    rw [reported_append, reported_cons henters.not_reports, reported_reportOf, hbefore,
      reported_reportOf]
    by_cases hok : outcome = VmState.Ok.word <;> simp [hok]
  constructor
  · rintro ⟨calls, mem', hfinishes', hnull, hgood, -⟩
    obtain ⟨hsame, -⟩ := hfinishes'.det hfinishes
    rw [hcalls] at hsame
    subst hsame
    have hentered : enteredObject T.stack.scriptFunction env mem ≠ some 0 := by
      intro hzero
      exact (hnull hzero).1 call (by simp) henters
    refine ⟨hentered, fun htested => ?_⟩
    have hfired : fired = true := by rw [hfired]; exact decide_eq_true htested
    obtain ⟨after, call', before', hsplit, henters', hothers, hreported'⟩ := hgood hentered
    obtain ⟨-, rfl, rfl⟩ := append_cons_unique (P := Request.Enters T.stack.scriptFunction) hsplit
      henters hothers
    rw [hreported, hfired, ← houtcome] at hreported'
    have hlength := congrArg List.length hreported'
    split at hlength <;> simp at hlength
  · rintro ⟨hentered, htested⟩
    have hfired : fired = false := by rw [hfired]; exact decide_eq_false htested
    have hbefore : before = [] := by rw [hbefore, hfired]; rfl
    refine ⟨_, _, hfinishes, fun h => absurd h hentered, fun _ => ⟨_, call, before, hcalls, henters,
      fun other hother => ?_, ?_⟩, ins, hins, hbc, ?_⟩
    · rw [hbefore, List.append_nil] at hother
      exact fun h => h.not_reports (reports_of_mem_reportOf hother)
    · rw [hcalls, hreported, hfired, houtcome]
      simp
    · rw [World.leave, hpointer]
      exact Bytes.read_write_same.trans (by simp [programPointerWord])

/-- **An entry is reported as it should be iff the thunk meets no null object**: neither is the
object null, nor is the pointer the thunk takes for it. -/
theorem vmEntryThunk_reports_iff {context : FunctionContext}
    {bytecode : List BytecodeInstruction} {T : Translation} {cfg : Cfg} {env : Env}
    (hfunc : context.scriptFunction.funcType = .asFUNC_SCRIPT)
    (hsupported : context.scriptFunction.Supported context.engine)
    (hobjects : ObjectsAreObjects context.engine context.scriptFunction)
    (hret : ∃ ins ∈ bytecode, ins.bc = .RET)
    (htranslate : translateBytecode context bytecode = .ok T)
    (hthunk : createVmEntryThunk T = .ok cfg) (henv : env.blocks = cfg.blocks) (host : Host)
    (regs : Regs) (mem : Bytes.Mem) :
    ReportsOnce bytecode context.scriptFunction env host regs mem ↔
      enteredObject context.scriptFunction env mem ≠ some 0 ∧
      testedObject context.scriptFunction (stackFramePointer env mem) mem ≠ some 0 := by
  obtain ⟨ins, hins, hbc, hpointer⟩ := translateBytecode_retPointer htranslate hret
  obtain rfl := translateBytecode_stack htranslate
  exact createVmEntryThunk_reports_iff hfunc hsupported hobjects hthunk henv host regs mem hins hbc
    hpointer

/-- A method `void f()`. -/
def ScriptFunction.bareMethod : ScriptFunction :=
  { ScriptFunction.free 1 (.primitive .ttVoid) [] 0 with objectType := some (.bare 1) }

theorem ScriptFunction.bareMethod_supported :
    ScriptFunction.bareMethod.Supported (.ofFunctions []) where
  slots type htype := by
    have hslots : scriptCallSlots (.ofFunctions []) bareMethod = [.objectOf 1] := by decide
    rw [hslots] at htype
    rw [List.mem_singleton.mp htype]
    exact DataType.objectOf_supported 1
  returned h := absurd rfl h.1

theorem exists_thunk_bareMethod :
    ∃ T cfg, translateBytecode ScriptFunction.bareMethod.alone retBytecode = .ok T ∧
      createVmEntryThunk T = .ok cfg := by
  obtain ⟨T, hT, hsome⟩ : ∃ T, translateBytecode ScriptFunction.bareMethod.alone retBytecode =
      .ok T ∧ (createVmEntryThunk T).toOption.isSome = true := exists_ok_of_map (by decide +kernel)
  obtain ⟨cfg, hcfg⟩ := exists_ok_of_isSome hsome
  exact ⟨T, cfg, hT, hcfg⟩

/-- The iff for a method entered with the object at address `1`. -/
theorem vmEntryThunk_reports_iff_method : ∃ T cfg,
    translateBytecode ScriptFunction.bareMethod.alone retBytecode = .ok T ∧
    createVmEntryThunk T = .ok cfg ∧
    (ReportsOnce retBytecode .bareMethod (.atZero cfg.blocks) .idle (fun _ => 0)
        (frameWithOneAt 0) ↔
      enteredObject .bareMethod (.atZero cfg.blocks) (frameWithOneAt 0) ≠ some 0 ∧
      testedObject .bareMethod (stackFramePointer (.atZero cfg.blocks) (frameWithOneAt 0))
        (frameWithOneAt 0) ≠ some 0) := by
  obtain ⟨T, cfg, hT, hcfg⟩ := exists_thunk_bareMethod
  refine ⟨T, cfg, hT, hcfg, vmEntryThunk_reports_iff rfl ScriptFunction.bareMethod_supported ?_
    ⟨_, List.mem_singleton_self _, rfl⟩ hT hcfg rfl .idle (fun _ => 0) (frameWithOneAt 0)⟩
  intro type htype
  rw [List.mem_singleton.mp htype]
  rfl

/-- **A method entered with a null object is run.** -/
theorem vmEntryThunk_not_reports : ¬ ∀ (context : FunctionContext)
    (bytecode : List BytecodeInstruction) (T : Translation) (cfg : Cfg) (env : Env) (host : Host)
    (regs : Regs) (mem : Bytes.Mem), context.scriptFunction.funcType = .asFUNC_SCRIPT →
    context.scriptFunction.Supported context.engine →
    ObjectsAreObjects context.engine context.scriptFunction →
    (∃ ins ∈ bytecode, ins.bc = .RET) → translateBytecode context bytecode = .ok T →
    createVmEntryThunk T = .ok cfg → env.blocks = cfg.blocks →
    ReportsOnce bytecode context.scriptFunction env host regs mem := by
  intro hclaim
  obtain ⟨T, cfg, hT, hcfg⟩ := exists_thunk_bareMethod
  have hobjects : ObjectsAreObjects (.ofFunctions []) .bareMethod := by
    intro type htype
    rw [List.mem_singleton.mp htype]
    rfl
  have hret : ∃ ins ∈ retBytecode, ins.bc = .RET := ⟨_, List.mem_singleton_self _, rfl⟩
  have hreports := hclaim _ retBytecode T cfg (.atZero cfg.blocks) .idle (fun _ => 0)
    (fun _ => 0) rfl ScriptFunction.bareMethod_supported hobjects hret hT hcfg rfl
  obtain ⟨ins, hins, hbc, hpointer⟩ := translateBytecode_retPointer hT hret
  have hstack := translateBytecode_stack hT
  have hiff := @createVmEntryThunk_reports_iff retBytecode T cfg (.atZero cfg.blocks) ins
    (by rw [hstack]; rfl)
    (by rw [hstack]; exact ScriptFunction.bareMethod_supported) (by rw [hstack]; exact hobjects)
    hcfg rfl .idle (fun _ => 0) (fun _ => 0) hins hbc hpointer
  rw [hstack] at hiff
  have hnull : some (Bytes.read (fun _ => 0) (Bytes.read (fun _ => 0) 8 8).toNat 8) =
      some (0 : Word) := by decide
  exact (hiff.mp hreports).1 hnull

end Asllvm
