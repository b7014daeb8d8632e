import Asllvm.Prologue
import Asllvm.Remaining

/-!
# Template Factory Stubs

AngelScript compiles a stub for every factory of a template instance: it pushes the type of the
instance, and calls the factory with that type and the arguments that it got itself. Those arguments
are never pushed. `CALLSYS` pops the type, and then goes on below the empty stack, where the offsets
are those of the parameters.

* `FactoryStub`, `StubBytecode` — a stub, the factory it calls, and its bytecode.
* `factoryCallCode` — the code of a call of a C function that returns a handle.
* `Forwards` — a stub calls its factory with its own arguments, and returns the handle it gets.

## Main results

* `translateBytecode_stub` — a stub is translated: every slot that is popped is known, and the stack
  is empty afterwards.
* `factoryStub_forwards` — stubs forward their parameters.
-/

open StateExcept Slots

namespace Asllvm

/-- **A template factory stub and its factory**: a C function with a reference to the type in front of
the parameters of the stub. Both return a handle. -/
structure FactoryStub (context : FunctionContext) (factory : ScriptFunction) (hidden : DataType) :
    Prop where
  supported : context.scriptFunction.Supported context.engine
  space : context.variableSpace = 0
  object : context.scriptFunction.objectType = none
  stack : context.scriptFunction.doesReturnOnStack = false
  returned : ∃ ty, context.scriptFunction.returnType.Returned ty
  handle : context.scriptFunction.returnType.isObjectHandle = true
  convention : factory.sysFuncIntf.callConv = .ICC_CDECL
  memory : factory.sysFuncIntf.hostReturnInMemory = false
  factoryStack : factory.doesReturnOnStack = false
  factoryReturned : ∃ ty, factory.returnType.Returned ty
  factoryHandle : factory.returnType.isObjectHandle = true
  parameters : factory.parameterTypes = hidden :: context.scriptFunction.parameterTypes
  reference : hidden.Supported ∧ hidden.isReference = true

/-- **The bytecode of a stub**: `OBJTYPE`, `CALLSYS` and `RET`, and entries of the JIT in front. -/
structure StubBytecode (context : FunctionContext) (factory : ScriptFunction)
    (entries : List BytecodeInstruction) (objtype call ret : BytecodeInstruction) : Prop where
  enters : ∀ entry ∈ entries, entry.bc = .JitEntry ∧ entry.info.stackInc = 0
  pushes : objtype.bc = .OBJTYPE ∧ objtype.info.stackInc = asPtrSize
  calls : call.bc = .CALLSYS ∧ call.info.stackInc = 0xFFFF
  callee : context.engine.getFunctionById call.argInt = some factory
  returns : ret.bc = .RET ∧ ret.info.stackInc = 0xFFFF
  walked : Walked (entries ++ [objtype, call, ret])

/-- The words of arguments, each at its own type. -/
def typedWords (types : List DataType) (words : List Word) : List Word :=
  List.zipWith (fun type word => match toLlvmType type with
    | .ok ty => ty.truncate word
    | .error _ => 0) types words

/-- The code of a call of a C function that returns a handle. -/
def factoryCallCode (stack : StackFrame) (function : ScriptFunction) (r : ℕ) (sp : ℤ)
    (tys : List Ty) (ty : Ty) : List Piece :=
  popPieces stack r sp function.parameterTypes tys ++
    (.instr (.call none (.runtime .prepareSystemCall) [⟨.systemFunction function.id, .pvoid⟩]) ::
      nativeCallCode (r + function.parameterTypes.length) (.systemFunction function.id)
        (loadedValues r tys) function.returnType ty)

/-- **A stub forwards its arguments**: it makes one call, to its factory, with the type and the
arguments that it was given itself. If that reports nothing, the stub stores the handle it got through
its own first argument. -/
def Forwards (factory : ScriptFunction) (env : Env) (host : Host) (pointer type : Word)
    (words : List Word) (s : LocalState) : Prop :=
  ∃ prepare call status state mem,
    Returns env host (fun _ => True) [] s state [status, call, prepare] mem ∧
    prepare.callee = .runtime .prepareSystemCall ∧
    call.callee = .system (.systemFunction factory.id) ∧ call.args = type :: words ∧
    status.callee = .runtime .checkExecutionStatus ∧
    ((host [status, call, prepare]).1 = 0 → state = VmState.Ok.word ∧
      Bytes.read mem pointer.toNat 8 = (host [call, prepare]).1)

/-- **Where a call pops its arguments**: the type from the top of the stack, and everything else below
the empty stack, at the offsets of the parameters. -/
def PopsParameters (T : Translation) (bytecode : List BytecodeInstruction) (factory : ScriptFunction)
    (call : BytecodeInstruction) : Prop :=
  (∃ r tys rest p q, CodeOf T.stack.toFunctionContext T bytecode call asPtrSize
    (popPieces T.stack r asPtrSize factory.parameterTypes tys ++ rest) p q) ∧
  ∀ (k : ℕ) type, T.stack.scriptFunction.parameterTypes[k]? = some type → ∃ ty,
    toLlvmType type = .ok ty ∧ T.stack.parameters.lookup
      (asPtrSize - slotOffset factory.parameterTypes (k + 1) : ℤ) = some ⟨k + 1, ty⟩

/-! ### The code -/

section Code

variable {stack : StackFrame} {function : ScriptFunction} {e : EmitState} {tys : List Ty} {ty : Ty}
  {ins : BytecodeInstruction}

/-- **The code of a call of a C function that returns a handle.** The stack pointer is moved back up
to the variables. -/
theorem emitSystemCall_cdecl_runs (hconv : function.sysFuncIntf.callConv = .ICC_CDECL)
    (hmem : function.sysFuncIntf.hostReturnInMemory = false)
    (hstack : function.doesReturnOnStack = false) (hreturned : function.returnType.Returned ty)
    (hhandle : function.returnType.isObjectHandle = true)
    (htys : function.parameterTypes.mapM toLlvmType = .ok tys)
    (hpop : Poppable stack function.parameterTypes e.stackPointer) :
    Runs (emitSystemCall stack function) e ()
      { e.extend (function.parameterTypes.length + 3)
          (factoryCallCode stack function e.nextReg e.stackPointer tys ty) with
        stackPointer := max (e.stackPointer - slotDWords function.parameterTypes)
          stack.variableSpace } := by
  have hlen : tys.length = function.parameterTypes.length := (mapM_eq_ok.mp htys).length_eq.symm
  have hsignature : getSystemFunctionType function = .ok (ty, tys) := by
    rw [getSystemFunctionType, hreturned.llvm, hmem, hconv, htys]
    rfl
  have hpointer : Runs (popReturnPointer stack function ty) e none e := by
    rw [popReturnPointer, hstack]
    exact runs_pure.mpr ⟨rfl, rfl⟩
  have hloop := @cdecl_runs stack function e tys hconv hlen hpop
  obtain ⟨e', he'⟩ : ∃ e', afterPops stack e function.parameterTypes tys = e' := ⟨_, rfl⟩
  rw [he'] at hloop
  have hcallee : Runs (systemCallee stack function none) e'
      ⟨.systemFunction function.id, .pvoid⟩ e' := by
    rw [systemCallee, hconv]
    exact runs_pure.mpr ⟨rfl, rfl⟩
  have hcall : Runs (callSystemFunction ⟨.systemFunction function.id, .pvoid⟩ ty
      ((loadedValues e.nextReg tys).map some)) e' ⟨.reg e'.nextReg, ty⟩
      (e'.extend 3 (.instr (.call none (.runtime .prepareSystemCall)
          [⟨.systemFunction function.id, .pvoid⟩]) ::
        .instr (.call (some e'.nextReg) (.system (.systemFunction function.id))
          (loadedValues e.nextReg tys)) :: contextCheck (e'.nextReg + 1))) := by
    simp only [callSystemFunction, runs_bind, runs_createCall_void, runs_emitCheckContextState,
      runs_pure, runs_createCall hreturned.ne_void]
    refine ⟨_, _, ⟨rfl, rfl⟩, _, _, mapM_dereference_runs _, _, _, ⟨rfl, rfl⟩, (), _, rfl, rfl, ?_⟩
    simp [contextCheck]
  have hstore : ∀ e'' : EmitState, Runs (storeSystemResult function none ⟨.reg e'.nextReg, ty⟩) e'' ()
      (e''.extend 0 [.instr (.store ty (.reg e'.nextReg) (.frame .objectRegister 0))]) := by
    intro e''
    rw [storeSystemResult, if_pos hreturned.ne_void, if_pos hhandle]
    exact runs_createStore.mpr rfl
  refine runs_bind.mpr ⟨(ty, tys), e, runs_lift.mpr ⟨hsignature, rfl⟩,
    runs_bind.mpr ⟨none, e, hpointer, runs_bind.mpr ⟨_, e', hloop, ?_⟩⟩⟩
  rw [finishSystemCall]
  refine runs_bind.mpr ⟨(), e', runs_pure.mpr ⟨rfl, rfl⟩, runs_bind.mpr ⟨_, e', hcallee,
    runs_bind.mpr ⟨_, _, hcall, runs_bind.mpr ⟨(), _, hstore _, ?_⟩⟩⟩⟩
  rw [StackFrame.runs_uglyHack, ← he']
  simp [afterPops, factoryCallCode, nativeCallCode, hhandle, EmitState.extend, contextCheck,
    Nat.add_assoc, Int.sub_eq_add_neg]

/-- An instruction is translated from the depth `sp`, and leaves the depth `sp'`. -/
def Translates (stack : StackFrame) (jumps : JumpTables) (ins : BytecodeInstruction) (sp sp' : ℤ) :
    Prop :=
  ∀ e : EmitState, e.stackPointer = sp → ∃ t e', Runs (translateOpcode stack jumps ins) e t e' ∧
    e'.stackPointer = sp'

/-- **An instruction without a label is accepted**, where the depths are those of its table. -/
theorem Translates.accepted {jumps : JumpTables} {sp sp' : ℤ} {st : BuilderState}
    (h : Translates stack jumps ins sp sp') (hlabel : jumps.jumpMap ins.offset = none)
    (hbounds : stack.variableSpace ≤ sp ∧ sp ≤ stack.totalSpace)
    (hinc : ins.info.stackInc ≠ 0xFFFF → sp' - sp = ins.info.stackInc)
    (hst : st.emit.stackPointer = sp) :
    ∃ st', Runs (translateInstruction stack jumps ins) st () st' ∧ st'.emit.stackPointer = sp' := by
  obtain ⟨t, e, hcode, rfl⟩ := h { st.emit with out := [] } hst
  subst hst
  have hchecked : ∀ st₁ : BuilderState, st₁.emit.stackPointer = e.stackPointer → ∃ st₂ : BuilderState,
      Runs (if ins.info.stackInc ≠ 0xFFFF then emitCode .Implementation do
        asllvmAssert stack.config
          ((← StackFrame.currentStackPointer) - st.emit.stackPointer = ins.info.stackInc)
        else pure ()) st₁ () st₂ ∧ st₂.emit.stackPointer = e.stackPointer := by
    intro st₁ hst₁
    split
    · rename_i hne
      simp only [runs_emitCode, runs_bind, StackFrame.runs_currentStackPointer, runs_asllvmAssert,
        decide_eq_true_eq]
      exact ⟨_, ⟨_, ⟨_, _, ⟨rfl, rfl⟩, fun _ => hst₁.symm ▸ hinc hne, rfl⟩, rfl⟩, hst₁⟩
    · exact ⟨st₁, runs_pure.mpr ⟨rfl, rfl⟩, hst₁⟩
  simp only [translateInstruction, hlabel, runs_bind, runs_emitCode, runs_modifyCfg,
    StackFrame.runs_currentStackPointer, StackFrame.runs_checkStackPointerBounds]
  cases t with
  | none =>
      obtain ⟨st₂, hcheck, hst₂⟩ := hchecked ⟨e, e.out.foldl (Cfg.place .Implementation)
        (st.cfg.append (.marker ins.offset))⟩ rfl
      exact ⟨st₂, ⟨_, _, ⟨_, ⟨rfl, rfl⟩, rfl⟩, (), _, rfl, (), _, ⟨_, ⟨fun _ => hbounds, rfl⟩, rfl⟩,
        _, _, ⟨e, hcode, rfl⟩, hcheck⟩, hst₂⟩
  | some term =>
      obtain ⟨st₂, hcheck, hst₂⟩ := hchecked ⟨e, (e.out.foldl (Cfg.place .Implementation)
        (st.cfg.append (.marker ins.offset))).append (.term term)⟩ rfl
      exact ⟨st₂, ⟨_, _, ⟨_, ⟨rfl, rfl⟩, rfl⟩, (), _, rfl, (), _, ⟨_, ⟨fun _ => hbounds, rfl⟩, rfl⟩,
        _, _, ⟨e, hcode, rfl⟩, runs_bind.mpr ⟨(), _, runs_modifyCfg.mpr rfl, hcheck⟩⟩, hst₂⟩

theorem Translates.ordinary {jumps : JumpTables} {sp sp' : ℤ} (hordinary : ins.bc.endsBlock = false)
    (h : ∀ e : EmitState, e.stackPointer = sp → ∃ e', Runs (translateOrdinary stack ins) e () e' ∧
      e'.stackPointer = sp') : Translates stack jumps ins sp sp' := by
  intro e he
  obtain ⟨e', hruns, he'⟩ := h e he
  refine ⟨none, e', ?_, he'⟩
  rw [translateOpcode_of_ordinary stack jumps ins hordinary, runs_bind]
  exact ⟨(), e', hruns, runs_pure.mpr ⟨rfl, rfl⟩⟩

/-- `OBJTYPE` pushes its type. -/
theorem objtype_runs (hbc : ins.bc = .OBJTYPE) (h : stack.Addressable (e.stackPointer + asPtrSize)) :
    Runs (translateOrdinary stack ins) e () ((e.move asPtrSize).extend 0
      [.instr (.store .iptr (.const ins.argPWord) (stack.slotAddress (e.stackPointer + asPtrSize)))]) := by
  simp only [translateOrdinary, hbc]
  exact (StackFrame.runs_push stack).mpr ⟨h, rfl⟩

/-- A system call is that of the function with its id. -/
theorem callsys_runs {e' : EmitState} (hbc : ins.bc = .CALLSYS ∨ ins.bc = .Thiscall1)
    (hfunction : stack.engine.getFunctionById ins.argInt = some function)
    (h : Runs (emitSystemCall stack function) e () e') :
    Runs (translateOrdinary stack ins) e () e' := by
  rcases hbc with hbc | hbc <;>
    simpa [translateOrdinary, hbc, hfunction] using h

/-- A `RET` that returns a handle is translated. -/
theorem Translates.ret {jumps : JumpTables} {sp : ℤ} (hbc : ins.bc = .RET)
    (hreturned : stack.scriptFunction.returnType.Returned ty)
    (hhandle : stack.scriptFunction.returnType.isObjectHandle = true)
    (hstack : stack.scriptFunction.doesReturnOnStack = false) :
    Translates stack jumps ins sp sp := by
  intro e he
  have hcond : stack.scriptFunction.returnType.tokenType ≠ .ttVoid ∧
      (!stack.scriptFunction.doesReturnOnStack) = true := ⟨hreturned.token, by rw [hstack]; rfl⟩
  simp only [translateOpcode, hbc, translateRet, if_pos hcond, hhandle, Bool.true_or, if_true,
    runs_bind, runs_lift, runs_createLoad, runs_createStore, runs_modify, runs_pure, hreturned.llvm]
  exact ⟨_, _, ⟨_, _, ⟨ty, e, ⟨rfl, rfl⟩, _, _, ⟨rfl, rfl⟩, (), _, rfl, (), _, rfl, rfl, rfl⟩, rfl, rfl⟩,
    he⟩

/-- Where nothing jumps, nothing has a label. -/
theorem preprocess_jumpless {bytecode : List BytecodeInstruction}
    (h : ∀ ins ∈ bytecode, ins.bc ≠ .JMP ∧ ins.bc.isConditionalJump = false) (o : ℤ) :
    (preprocess bytecode).jumpMap o = none := by
  have hfold : ∀ st : JumpTables × PreprocessContext, ¬ st.1.HasLabel o →
      ¬ (bytecode.foldl preprocessInstruction st).1.HasLabel o := by
    induction bytecode with
    | nil => exact fun _ hst => hst
    | cons ins rest ih =>
        intro st hst
        obtain ⟨hjmp, hconditional⟩ := h ins List.mem_cons_self
        refine ih (fun ins' hins' => h ins' (List.mem_cons_of_mem _ hins')) _ ?_
        rw [preprocessInstruction_hasLabel, BytecodeInstruction.branchTargets, if_neg hjmp,
          if_neg (by rw [hconditional]; exact Bool.false_ne_true)]
        rintro (hmem | ⟨hbc, -⟩ | hlabel)
        · exact List.not_mem_nil hmem
        · exact hjmp hbc
        · exact hst hlabel
  have hempty : ¬ JumpTables.empty.HasLabel o := Bool.false_ne_true
  simpa [JumpTables.HasLabel, preprocess] using hfold (.empty, ⟨0, false⟩) hempty

end Code

/-! ### A stub is translated -/

section Stub

variable {context : FunctionContext} {factory : ScriptFunction} {hidden : DataType}
  {entries : List BytecodeInstruction} {objtype call ret : BytecodeInstruction}
  {stack : StackFrame} {jumps : JumpTables} {e e' : EmitState}

namespace FactoryStub

/-- The slots of a stub are those of its parameters. -/
theorem slots (h : FactoryStub context factory hidden) :
    scriptCallSlots context.engine context.scriptFunction = context.scriptFunction.parameterTypes := by
  have hnot : ¬ context.scriptFunction.ReturnsOnStack := fun hstack =>
    Bool.false_ne_true (h.stack.symm.trans hstack.2)
  rw [scriptCallSlots, if_neg hnot, h.object]
  rfl

/-- The first argument of a stub is the pointer that it returns through. -/
theorem hiddenArguments_eq (h : FactoryStub context factory hidden) :
    hiddenArguments context.scriptFunction = 1 := by
  obtain ⟨ty, hreturned⟩ := h.returned
  rw [hiddenArguments, if_pos ⟨hreturned.token, h.stack⟩]

/-- The type in front is a pointer, and takes its place. -/
theorem reference_size (h : FactoryStub context factory hidden) :
    hidden.sizeOnStackDWords = asPtrSize := by
  obtain ⟨hsupported, hreference⟩ := h.reference
  rw [hsupported.size, if_neg (by rw [hreference]; simp)]

/-- The offset of an argument of the factory is that of a parameter of the stub. -/
theorem slotOffset_eq (h : FactoryStub context factory hidden) (k : ℕ) :
    ((asPtrSize : ℕ) - slotOffset factory.parameterTypes (k + 1) : ℤ) =
      -slotOffset context.scriptFunction.parameterTypes k := by
  rw [h.parameters, slotOffset, offset_cons_succ, h.reference_size, Nat.cast_add, slotOffset]
  omega

/-- **What lies below the empty stack is known**: it is the parameters. -/
theorem poppable (h : FactoryStub context factory hidden)
    (hlocal : Runs (emitAllocateLocalStructures context) e stack e') :
    Poppable stack factory.parameterTypes asPtrSize := by
  intro k slot hslot
  have hcontext := (emitAllocateLocalStructures_stack hlocal).1
  cases k with
  | zero =>
      rw [slotOffset, offset_zero, StackFrame.Addressable, if_neg (by decide)]
      intro _
      have htotal := stack.totalSpace_eq
      simp only [asPtrSize]
      omega
  | succ k =>
      have hparameter : context.scriptFunction.parameterTypes[k]? = some slot := by
        rw [h.parameters] at hslot
        exact hslot
      rw [← h.slots] at hparameter
      obtain ⟨ty, hty⟩ := (h.supported.slots slot
        (List.mem_of_getElem? hparameter)).exists_toLlvmType
      rw [h.slotOffset_eq, StackFrame.Addressable, if_pos (by omega), ← h.slots,
        emitAllocateLocalStructures_lookup h.supported hlocal hparameter hty]
      rfl

end FactoryStub

/-- A stub has no labels. -/
theorem StubBytecode.labels (h : StubBytecode context factory entries objtype call ret) (o : ℤ) :
    (preprocess (entries ++ [objtype, call, ret])).jumpMap o = none := by
  refine preprocess_jumpless (fun ins hins => ?_) o
  have hbc : ins.bc ∈ [Opcode.JitEntry, .OBJTYPE, .CALLSYS, .RET] := by
    rcases List.mem_append.mp hins with hentry | hins
    · simp [(h.enters ins hentry).1]
    · obtain rfl | rfl | rfl : ins = objtype ∨ ins = call ∨ ins = ret := by simpa using hins
      · simp [h.pushes.1]
      · simp [h.calls.1]
      · simp [h.returns.1]
  revert hbc
  cases ins.bc <;> simp [Opcode.isConditionalJump]

/-- In front of `OBJTYPE`, nothing is on the stack. -/
theorem StubBytecode.depth_entries (h : StubBytecode context factory entries objtype call ret)
    (depth : ℤ) : entries.foldl (fun depth ins => stackEffect context ins depth) depth = depth := by
  have henters := h.enters
  clear h
  induction entries with
  | nil => rfl
  | cons entry entries ih =>
      have hentry : stackEffect context entry depth = depth := by
        rw [stackEffect, (henters entry List.mem_cons_self).1]
      rw [List.foldl_cons, hentry]
      exact ih fun entry' hentry' => henters entry' (List.mem_cons_of_mem _ hentry')

/-- The parameters of the factory have types. -/
theorem FactoryStub.exists_types (h : FactoryStub context factory hidden) :
    ∃ tys, factory.parameterTypes.mapM toLlvmType = .ok tys := by
  refine exists_mapM_toLlvmType fun type htype => ?_
  rw [h.parameters] at htype
  rcases List.mem_cons.mp htype with rfl | hparameter
  · exact h.reference.1
  · exact h.supported.slots type (h.slots ▸ hparameter)

/-- Some instructions that leave the stack as it is are accepted. -/
theorem forM_translateInstruction_runs {sp : ℤ} {instructions : List BytecodeInstruction}
    (h : ∀ ins ∈ instructions, Translates stack jumps ins sp sp ∧ ins.info.stackInc = 0)
    (hlabels : ∀ o, jumps.jumpMap o = none)
    (hbounds : stack.variableSpace ≤ sp ∧ sp ≤ stack.totalSpace) (st : BuilderState)
    (hst : st.emit.stackPointer = sp) :
    ∃ st', Runs (instructions.forM (translateInstruction stack jumps)) st () st' ∧
      st'.emit.stackPointer = sp := by
  induction instructions generalizing st with
  | nil => exact ⟨st, runs_forM_nil.mpr rfl, hst⟩
  | cons ins rest ih =>
      obtain ⟨htranslates, hinc⟩ := h ins List.mem_cons_self
      obtain ⟨st₁, hins, hst₁⟩ := htranslates.accepted (hlabels _) hbounds (fun _ => by omega) hst
      obtain ⟨st₂, hrest, hst₂⟩ := ih (fun ins' hins' => h ins' (List.mem_cons_of_mem _ hins')) st₁ hst₁
      exact ⟨st₂, runs_forM_cons.mpr ⟨st₁, hins, hrest⟩, hst₂⟩

/-- **A stub is translated**, and its stack is empty at the end. -/
theorem translateBytecode_stub (hstub : FactoryStub context factory hidden)
    (hcode : StubBytecode context factory entries objtype call ret) :
    ∃ T, translateBytecode context (entries ++ [objtype, call, ret]) = .ok T ∧
      T.emit.stackPointer = context.variableSpace := by
  obtain ⟨ty, hreturned⟩ := hstub.returned
  obtain ⟨ty', hreturned'⟩ := hstub.factoryReturned
  obtain ⟨stack, tys, htys, hlocal⟩ := @emitAllocateLocalStructures_runs context
    BuilderState.new.emit hstub.supported ⟨ty, hreturned.llvm⟩
  obtain rfl := (emitAllocateLocalStructures_stack hlocal).1
  obtain ⟨factoryTys, hfactoryTys⟩ := hstub.exists_types
  obtain ⟨jumps, hjumps⟩ : ∃ jumps, preprocess (entries ++ [objtype, call, ret]) = jumps := ⟨_, rfl⟩
  have hlabels : ∀ o, jumps.jumpMap o = none := fun o => hjumps ▸ hcode.labels o
  have hbounds : stack.variableSpace ≤ 0 ∧ 0 ≤ stack.totalSpace := by
    have htotal := stack.totalSpace_eq
    have hspace := hstub.space
    omega
  have hbounds' : stack.variableSpace ≤ asPtrSize ∧ asPtrSize ≤ stack.totalSpace := by
    have htotal := stack.totalSpace_eq
    simp only [asPtrSize]
    omega
  have hpop := hstub.poppable hlocal
  have hentries : ∀ entry ∈ entries, Translates stack jumps entry 0 0 ∧ entry.info.stackInc = 0 := by
    intro entry hentry
    obtain ⟨hbc, hinc⟩ := hcode.enters entry hentry
    refine ⟨.ordinary (by rw [hbc]; rfl) fun e he => ⟨e, ?_, he⟩, hinc⟩
    simp [translateOrdinary, hbc]
  have hpush : Translates stack jumps objtype 0 asPtrSize := by
    refine .ordinary (by rw [hcode.pushes.1]; rfl) fun e he =>
      ⟨_, objtype_runs hcode.pushes.1 ?_, by rw [EmitState.extend_stackPointer,
        EmitState.move_stackPointer, he, Int.zero_add]⟩
    rw [he, Int.zero_add, StackFrame.Addressable, if_neg (by decide)]
    exact fun _ => hbounds'.2
  have hcall : Translates stack jumps call asPtrSize 0 := by
    refine .ordinary (by rw [hcode.calls.1]; rfl) fun e he =>
      ⟨_, callsys_runs (.inl hcode.calls.1) hcode.callee (emitSystemCall_cdecl_runs hstub.convention
        hstub.memory hstub.factoryStack hreturned' hstub.factoryHandle hfactoryTys (he ▸ hpop)), ?_⟩
    have hspace := hstub.space
    have hsize := hstub.reference_size
    dsimp only
    rw [he, hstub.parameters, slotDWords, total_cons]
    omega
  have hret : Translates stack jumps ret 0 0 := .ret hcode.returns.1 hreturned hstub.handle hstub.stack
  have hstart : (BuilderState.afterLocals ({ BuilderState.new.emit with
      stackPointer := stack.variableSpace }.extend 0
        (prologuePieces stack.toFunctionContext tys))).emit.stackPointer = 0 := hstub.space
  obtain ⟨st₁, hentriesRun, hst₁⟩ := forM_translateInstruction_runs hentries hlabels hbounds _ hstart
  obtain ⟨st₂, hpushRun, hst₂⟩ := hpush.accepted (hlabels _) hbounds
    (fun _ => by rw [hcode.pushes.2, Int.sub_zero]) hst₁
  obtain ⟨st₃, hcallRun, hst₃⟩ := hcall.accepted (hlabels _) hbounds'
    (fun hne => absurd hcode.calls.2 hne) hst₂
  obtain ⟨st₄, hretRun, hst₄⟩ := hret.accepted (hlabels _) hbounds
    (fun hne => absurd hcode.returns.2 hne) hst₃
  have hscan : Runs ((entries ++ [objtype, call, ret]).forM (translateInstruction stack jumps))
      (.afterLocals _) () st₄ :=
    runs_forM_append.mpr ⟨st₁, hentriesRun, runs_forM_cons.mpr ⟨st₂, hpushRun,
      runs_forM_cons.mpr ⟨st₃, hcallRun, runs_forM_cons.mpr ⟨st₄, hretRun, runs_forM_nil.mpr rfl⟩⟩⟩⟩
  have hempty : st₄.emit.stackPointer = stack.variableSpace := hst₄.trans hstub.space.symm
  have hfinal : Runs stack.finalize { st₄.emit with out := [] } () { st₄.emit with out := [] } := by
    simp only [StackFrame.finalize, runs_bind, StackFrame.runs_emptyStack, runs_asllvmAssert]
    exact ⟨_, _, ⟨rfl, rfl⟩, fun _ => decide_eq_true hempty, rfl⟩
  have hbuild : Runs (buildImplementation stack.toFunctionContext jumps (entries ++ [objtype, call, ret]))
      .new stack ⟨{ st₄.emit with out := [] }, st₄.cfg⟩ := by
    refine runs_bind.mpr ⟨stack, _, runs_emitCode.mpr ⟨_, hlocal, rfl⟩, runs_bind.mpr ⟨(), st₄, hscan,
      runs_bind.mpr ⟨(), _, runs_emitCode.mpr ⟨_, hfinal, rfl⟩, runs_pure.mpr ⟨rfl, rfl⟩⟩⟩⟩
  refine ⟨⟨stack, jumps, { st₄.emit with out := [] }, st₄.cfg⟩, ?_, hempty⟩
  rw [translateBytecode, hjumps]
  exact except_bind_ok.mpr ⟨_, hbuild, rfl⟩

end Stub

/-! ### A stub is run -/

section Run

variable {T : Translation} {stack : StackFrame} {jumps : JumpTables} {env : Env} {host : Host}
  {ins : BytecodeInstruction} {s s' u : EmitState} {r p q r' z : Position} {t : Option Terminator}

/-- An instruction without a label is run as its pieces say, from where the code before it ends. -/
theorem InstructionAt.reached (h : InstructionAt stack jumps env.blocks ins s r p t s' q r')
    (hlabel : jumps.jumpMap ins.offset = none) (regs : Regs) (mem : Bytes.Mem) (calls : List Request)
    (current : Option ℕ) :
    (runCode env host s'.out ⟨regs, mem, calls⟩).Reached env host (fun _ => True) (some ins.offset)
      calls ⟨r, regs, mem, current⟩ q := by
  have henters := h.enters
  rw [hlabel] at henters
  cases henters
  have hstep : (⟨r, regs, mem, current⟩ : LocalState).step env =
      .next ⟨r.next, regs, mem, some ins.offset⟩ := LocalState.step_marker h.marker
  refine .of_reaches (.next (fun _ _ => trivial) hstep (.refl _ _)) ?_
  exact h.code.reached (fun _ _ => trivial) calls ⟨r.next, regs, mem, some ins.offset⟩ rfl

/-- Code that runs to its end, and ends no block, gets to where the next instruction starts. -/
theorem InstructionAt.goes {p' : Progress} (h : InstructionAt stack jumps env.blocks ins s r p none s' q r')
    (hlabel : jumps.jumpMap ins.offset = none) {regs : Regs} {mem : Bytes.Mem} {calls : List Request}
    (hgoes : runCode env host s'.out ⟨regs, mem, calls⟩ = .goes p') (current : Option ℕ) :
    Reaches env host (fun _ => True) calls ⟨r, regs, mem, current⟩ p'.world.calls
      (p'.within r' (some ins.offset)) := by
  have hreached := @InstructionAt.reached stack jumps env host ins s s' r p q r' none h hlabel regs mem
    calls current
  have hleaves := h.leaves
  cases hleaves
  rw [hgoes] at hreached
  exact hreached

/-- Instructions without code are passed, by induction on them. -/
theorem LaidOut.passes {instructions rest : List BytecodeInstruction}
    (h : LaidOut stack jumps env.blocks s r (instructions ++ rest) u z)
    (hlabels : ∀ o, jumps.jumpMap o = none) (hentries : ∀ ins ∈ instructions, ins.bc = .JitEntry)
    (host : Host) (regs : Regs) (mem : Bytes.Mem) (calls : List Request) (current : Option ℕ) :
    ∃ s₁ r₁ current', s₁.stackPointer = s.stackPointer ∧
      LaidOut stack jumps env.blocks s₁ r₁ rest u z ∧
      Reaches env host (fun _ => True) calls ⟨r, regs, mem, current⟩ calls
        ⟨r₁, regs, mem, current'⟩ := by
  induction instructions generalizing s r current with
  | nil => exact ⟨s, r, current, rfl, h, .refl _ _⟩
  | cons ins instructions ih =>
      cases h with
      | cons hins hrest =>
          have hruns := hins.runs
          have hbc := hentries ins List.mem_cons_self
          rw [translateOpcode_of_ordinary stack jumps ins (by rw [hbc]; rfl)] at hruns
          obtain ⟨rfl, rfl⟩ : _ = none ∧ _ = _ := by
            simpa [translateOrdinary, hbc] using hruns
          obtain ⟨s₁, r₁, current', hsp, hlaid, hreaches⟩ := ih hrest
            (fun ins' hins' => hentries ins' (List.mem_cons_of_mem _ hins')) (some ins.offset)
          have hgoes : runCode env host [] ⟨regs, mem, calls⟩ = .goes ⟨regs, mem, calls⟩ := rfl
          exact ⟨s₁, r₁, current', hsp, hlaid, (hins.goes (hlabels _) hgoes current).trans hreaches⟩

/-- **The end of a system call asks for the status**, and then it goes on or leaves. It goes on with
what the call has returned, if the status is none. -/
theorem nativeCallCode_calls (type : DataType) (ty : Ty) (hact : Activates T env) (host : Host)
    (p : Progress) (r : ℕ) (target : Operand) (args : List Value) {words : List Word}
    (hargs : args.map (·.eval env p.regs) = words) :
    ∃ p' status, status.callee = .runtime .checkExecutionStatus ∧
      p'.world.calls = status :: ⟨.system target, words, p.world.mem⟩ :: p.world.calls ∧
      (runCode env host (nativeCallCode r target args type ty) p = .goes p' ∨
        ∃ state, runCode env host (nativeCallCode r target args type ty) p = .leaves state p') ∧
      ((host p'.world.calls).1 = 0 → ∃ mem,
        runCode env host (nativeCallCode r target args type ty) p = .goes p' ∧
        p'.world.mem = Bytes.write mem (if type.isObjectHandle then hact.registers.object
          else hact.registers.value) ty.storeSize (ty.truncate
            (host (⟨.system target, words, p.world.mem⟩ :: p.world.calls)).1)) := by
  let call : Request := ⟨.system target, words, p.world.mem⟩
  let called := host (call :: p.world.calls)
  let status : Request := ⟨.runtime .checkExecutionStatus, [], called.2⟩
  let asked := host (status :: call :: p.world.calls)
  let regs := Function.update (Function.update p.regs r called.1) (r + 1) asked.1
  obtain ⟨v, hcompare⟩ : ∃ v, (Instr.icmp (r + 1 + 1) .ne .vmState (.reg (r + 1)) (.const 0)).exec env
      regs asked.2 = some (Function.update regs (r + 1 + 1) v, asked.2) := ⟨_, rfl⟩
  obtain ⟨mem, hstore⟩ : ∃ mem, (Instr.store ty (.reg r) (.frame (if type.isObjectHandle then
      .objectRegister else .valueRegister) 0)).exec env (Function.update regs (r + 1 + 1) v) asked.2 =
        some (Function.update regs (r + 1 + 1) v, mem) := by
    split
    · exact ⟨_, exec_store_alloca ty (by rw [hact.objectRegister]; exact ty.storeSize_le) _ _ _⟩
    · exact ⟨_, exec_store_alloca ty (by rw [hact.valueRegister]; exact ty.storeSize_le) _ _ _⟩
  have hcode : runCode env host (nativeCallCode r target args type ty) p =
      if ((Operand.reg (r + 1 + 1)).eval env (Function.update regs (r + 1 + 1) v)).getLsbD 0 then
        .leaves (VmState.ExceptionExternal.const.op.eval env (Function.update regs (r + 1 + 1) v))
          ⟨Function.update regs (r + 1 + 1) v, asked.2, status :: call :: p.world.calls⟩
      else .goes ⟨Function.update regs (r + 1 + 1) v, mem, status :: call :: p.world.calls⟩ := by
    rw [nativeCallCode, runCode, hargs, @Progress.call_eq host p _ words called.1 called.2 rfl,
      contextCheck, List.cons_append, List.cons_append, runCode, List.map_nil,
      @Progress.call_eq host ⟨_, called.2, _⟩ _ [] asked.1 asked.2 rfl, List.cons_append, List.nil_append,
      runCode_step hcompare, runCode, runCode_step hstore]
    rfl
  have hzero : asked.1 = 0 → ∃ regs' calls, runCode env host (nativeCallCode r target args type ty) p =
      .goes ⟨regs', Bytes.write asked.2 (if type.isObjectHandle then hact.registers.object
        else hact.registers.value) ty.storeSize (ty.truncate called.1), calls⟩ := fun h =>
    nativeCallCode_goes type ty hact host p r target args (by rw [hargs]) (by rw [hargs, ← h])
  split at hcode
  · refine ⟨_, status, rfl, rfl, .inr ⟨_, hcode⟩, fun h => ?_⟩
    obtain ⟨_, _, hgoes⟩ := hzero h
    exact CodeResult.noConfusion (hcode.symm.trans hgoes)
  · refine ⟨_, status, rfl, rfl, .inl hcode, fun h => ?_⟩
    obtain ⟨_, _, hgoes⟩ := hzero h
    obtain ⟨-, rfl, -⟩ : _ ∧ mem = _ ∧ _ := by simpa using hcode.symm.trans hgoes
    exact ⟨asked.2, hcode, rfl⟩

/-- **The arguments in the slots**, popped. -/
theorem HoldsArguments.pushedArguments {mem : Bytes.Mem} {i : ℕ} {o : ℤ} {slots : List DataType}
    {tys : List Ty} (h : HoldsArguments stack env mem i o slots tys)
    (htys : slots.mapM toLlvmType = .ok tys) (hlen : env.args.length = i + slots.length) :
    pushedArguments stack env.layout mem o slots = typedWords slots (env.args.drop i) := by
  have hall := mapM_eq_ok.mp htys
  refine List.ext_getElem? fun k => ?_
  by_cases hk : k < slots.length
  · have hk' : k < tys.length := hall.length_eq ▸ hk
    have hslot := List.getElem?_eq_getElem hk
    have hty := List.getElem?_eq_getElem hk'
    have hslotTy : toLlvmType slots[k] = .ok tys[k] := hall.get hk hk'
    have harg : env.args[i + k]? = some env.args[i + k] := List.getElem?_eq_getElem (by omega)
    have hword := (h k _ _ hslot hty).2
    rw [List.getD_eq_getElem?_getD, harg, Option.getD_some] at hword
    rw [pushedArguments_get hslot, typedWords, List.getElem?_zipWith, hslot, List.getElem?_drop, harg]
    dsimp only
    rw [pushedWord, hslotTy]
    exact congrArg some hword
  · have hpushed := @pushedArguments_length stack o slots env.layout mem
    rw [List.getElem?_eq_none (by omega), List.getElem?_eq_none]
    rw [typedWords, List.length_zipWith]
    omega

/-- **A call of a C function that returns a handle, run**: it passes the words of the slots. -/
theorem factoryCallCode_calls {function : ScriptFunction} {tys : List Ty} {sp : ℤ} {mem : Bytes.Mem}
    {words : List Word} (host : Host) (r : ℕ) (ty : Ty) (hact : Activates T env)
    (hhandle : function.returnType.isObjectHandle = true)
    (htys : function.parameterTypes.mapM toLlvmType = .ok tys)
    (hframe : ∀ (k : ℕ) slot ty, function.parameterTypes[k]? = some slot → tys[k]? = some ty →
      T.stack.InFrame (sp - slotOffset function.parameterTypes k) ty.storeSize)
    (hwords : pushedArguments T.stack env.layout mem sp function.parameterTypes = words)
    (regs : Regs) (calls : List Request) :
    ∃ p' prepare call status, prepare.callee = .runtime .prepareSystemCall ∧
      call.callee = .system (.systemFunction function.id) ∧ call.args = words ∧
      status.callee = .runtime .checkExecutionStatus ∧
      p'.world.calls = status :: call :: prepare :: calls ∧
      (runCode env host (factoryCallCode T.stack function r sp tys ty) ⟨regs, mem, calls⟩ = .goes p' ∨
        ∃ state, runCode env host (factoryCallCode T.stack function r sp tys ty) ⟨regs, mem, calls⟩ =
          .leaves state p') ∧
      ((host p'.world.calls).1 = 0 → ∃ mem',
        runCode env host (factoryCallCode T.stack function r sp tys ty) ⟨regs, mem, calls⟩ = .goes p' ∧
        p'.world.mem = Bytes.write mem' hact.registers.object ty.storeSize
          (ty.truncate (host (call :: prepare :: calls)).1)) := by
  obtain ⟨popped, htraced, -, hargs⟩ := popPieces_arguments host r hact htys hframe ⟨regs, mem, calls⟩
  let target : Value := ⟨.systemFunction function.id, .pvoid⟩
  let prepared : Progress := Progress.call host ⟨popped, mem, calls⟩ none
    (.runtime .prepareSystemCall) [target.eval env popped]
  have hprepared := htraced.append (.call none (.runtime .prepareSystemCall) [target] _)
  have hpassed : (loadedValues r tys).map (·.eval env prepared.regs) = words :=
    (hargs popped fun _ _ => rfl).trans hwords
  obtain ⟨p', status, hstatus, hcalls, hends, hgoes⟩ := nativeCallCode_calls function.returnType ty hact
    host prepared (r + function.parameterTypes.length) (.systemFunction function.id)
    (loadedValues r tys) hpassed
  have hcode : runCode env host (factoryCallCode T.stack function r sp tys ty) ⟨regs, mem, calls⟩ =
      runCode env host (nativeCallCode (r + function.parameterTypes.length)
        (.systemFunction function.id) (loadedValues r tys) function.returnType ty) prepared := by
    rw [factoryCallCode, ← List.singleton_append, ← List.append_assoc]
    exact hprepared.runCode_eq
  rw [if_pos hhandle] at hgoes
  rw [hcode]
  exact ⟨p', _, _, status, rfl, rfl, rfl, hstatus, hcalls, hends, hgoes⟩

end Run

section Forwarding

variable {context : FunctionContext} {factory : ScriptFunction} {hidden : DataType}
  {entries : List BytecodeInstruction} {objtype call ret : BytecodeInstruction} {T : Translation}
  {env : Env} {pointer : Word} {words : List Word}

/-- The types of the parameters of the factory. -/
theorem FactoryStub.mapM_types {tys : List Ty} (h : FactoryStub context factory hidden)
    (htys : context.scriptFunction.parameterTypes.mapM toLlvmType = .ok tys) :
    ∃ ty, factory.parameterTypes.mapM toLlvmType = .ok (.ptr ty :: tys) := by
  obtain ⟨hsupported, hreference⟩ := h.reference
  obtain ⟨ty, hty⟩ := hsupported.exists_toLlvmType
  obtain ⟨pointee, rfl⟩ : ∃ pointee, ty = .ptr pointee := by
    by_cases hprimitive : hidden.isPrimitive = true
    · rw [toLlvmType, if_pos hprimitive] at hty
      obtain ⟨base, -, hbase⟩ := except_bind_ok.mp hty
      rw [if_pos hreference] at hbase
      exact ⟨base, (Except.ok.inj hbase).symm⟩
    · obtain ⟨id, rfl⟩ := toLlvmType_eq_ptr (by simpa using hprimitive) hty
      exact ⟨_, rfl⟩
  rw [h.parameters]
  exact ⟨pointee, mapM_eq_ok.mpr (.cons hty (mapM_eq_ok.mp htys))⟩

/-- A frame has room for a pointer on its stack. -/
theorem StackFrame.inFrame_asPtrSize (stack : StackFrame) : stack.InFrame asPtrSize 8 := by
  have htotal := stack.totalSpace_eq
  exact inFrame_storage (by decide) (by simp only [asPtrSize]; omega) (by decide)

/-- **What is below the type on the stack**: the arguments of the stub. -/
theorem FactoryStub.arguments {ty : Ty} {tys : List Ty} {mem₀ mem₁ : Bytes.Mem}
    (h : FactoryStub T.stack.toFunctionContext factory hidden) (hact : Activates T env)
    (htypes : factory.parameterTypes.mapM toLlvmType = .ok (.ptr ty :: tys))
    (hholds : HoldsArguments T.stack env mem₀ 1 0 T.stack.scriptFunction.parameterTypes tys)
    (hlen : env.args.length = 1 + T.stack.scriptFunction.parameterTypes.length) {type : Word}
    (hmem : Bytes.write mem₀ (T.stack.byteAddress env.layout asPtrSize) 8 type = mem₁) :
    (∀ (k : ℕ) slot ty', factory.parameterTypes[k]? = some slot →
      (Ty.ptr ty :: tys)[k]? = some ty' →
        T.stack.InFrame (asPtrSize - slotOffset factory.parameterTypes k) ty'.storeSize) ∧
    pushedArguments T.stack env.layout mem₁ asPtrSize factory.parameterTypes =
      type :: typedWords T.stack.scriptFunction.parameterTypes (env.args.drop 1) := by
  have hframe := T.stack.inFrame_asPtrSize
  have hkept : ∀ o : ℤ, env.layout.Agrees (.parameter o) mem₀ mem₁ := by
    intro o
    obtain ⟨hlow, hhigh⟩ := hframe.within hact
    rw [StackFrame.slot, if_neg (by decide)] at hlow hhigh
    rw [← hmem]
    exact .write AllocaId.noConfusion hlow hhigh type
  have hholds' : HoldsArguments T.stack env mem₁ 1 0 T.stack.scriptFunction.parameterTypes tys := by
    intro k slot ty' hslot hty
    obtain ⟨hslotFrame, hword⟩ := hholds k slot ty' hslot hty
    refine ⟨hslotFrame, ?_⟩
    rw [hslotFrame.slotWord_agrees hact, hword]
    rw [StackFrame.slot, if_pos (by omega)]
    exact hkept _
  have hall := mapM_eq_ok.mp htypes
  rw [h.parameters] at hall
  obtain ⟨hhidden, htys⟩ := List.forall₂_cons.mp hall
  refine ⟨fun k slot ty' hslot hty => ?_, ?_⟩
  · rw [h.parameters] at hslot
    cases k with
    | zero =>
        obtain rfl : Ty.ptr ty = ty' := by simpa using hty
        rw [slotOffset, offset_zero, Nat.cast_zero, Int.sub_zero]
        exact hframe
    | succ k =>
        rw [h.slotOffset_eq, ← Int.zero_sub]
        exact (hholds k slot ty' hslot hty).1
  · have hfirst : pushedWord T.stack env.layout mem₁ asPtrSize hidden = type := by
      rw [pushedWord, hhidden, ← hmem]
      dsimp only
      rw [StackFrame.slotWord, Ty.truncate_ptr]
      exact Bytes.read_write_same
    rw [h.parameters, Asllvm.pushedArguments, hfirst, h.reference_size, Int.sub_self,
      hholds'.pushedArguments (mapM_eq_ok.mpr htys) hlen]

/-- The code of an ordinary instruction is what its translation emits. -/
theorem InstructionAt.ordinary {stack : StackFrame} {jumps : JumpTables} {F : BlockId → List Item}
    {ins : BytecodeInstruction} {s s' e : EmitState} {r p q r' : Position} {t : Option Terminator}
    (h : InstructionAt stack jumps F ins s r p t s' q r') (hordinary : ins.bc.endsBlock = false)
    (hruns : Runs (translateOrdinary stack ins) { s with out := [] } () e) : t = none ∧ s' = e := by
  have htranslated := h.runs
  rw [translateOpcode_of_ordinary stack jumps ins hordinary, runs_bind] at htranslated
  obtain ⟨_, _, hcode, hpure⟩ := htranslated
  obtain ⟨rfl, rfl⟩ := runs_pure.mp hpure
  exact ⟨rfl, (hcode.det hruns).2⟩

/-- An activation of a stub in front of `CALLSYS`: the type and the arguments are what is popped. -/
structure AtCall (T : Translation) (env : Env) (factory : ScriptFunction) (type : Word)
    (words : List Word) (e : EmitState) (mem : Bytes.Mem) (tys : List Ty) : Prop where
  stackPointer : e.stackPointer = asPtrSize
  types : factory.parameterTypes.mapM toLlvmType = .ok tys
  frames : ∀ (k : ℕ) slot ty, factory.parameterTypes[k]? = some slot → tys[k]? = some ty →
    T.stack.InFrame (asPtrSize - slotOffset factory.parameterTypes k) ty.storeSize
  words : pushedArguments T.stack env.layout mem asPtrSize factory.parameterTypes = type :: words

/-- **A stub comes to its call**, with its own arguments below the type. -/
theorem stub_comes_to_call (hstub : FactoryStub T.stack.toFunctionContext factory hidden)
    (hcode : StubBytecode T.stack.toFunctionContext factory entries objtype call ret)
    (hT : translateBytecode T.stack.toFunctionContext (entries ++ [objtype, call, ret]) = .ok T)
    (hact : Activates T env) (hargs : env.args = pointer :: words)
    (hlen : words.length = T.stack.scriptFunction.parameterTypes.length) (host : Host)
    {s : LocalState} (hs : s.position = (.entry, 0)) :
    ∃ mem e tys r current u z, Reaches env host (fun _ => True) [] s [] ⟨r, s.regs, mem, current⟩ ∧
      LaidOut T.stack T.jumps env.blocks e r [call, ret] u z ∧
      AtCall T env factory objtype.argPWord
        (typedWords T.stack.scriptFunction.parameterTypes words) e mem tys := by
  obtain ⟨ty, hreturned⟩ := hstub.returned
  obtain ⟨hjumps, s₀, r₀, s₁, hlocal, hprologue, hlaid, -⟩ := translateBytecode_laidOut hcode.walked hT
  rw [← hact.blocks] at hprologue hlaid
  obtain ⟨tys, stored, htys, hgoes₀, hholds⟩ := prologuePieces_goes hstub.supported
    ⟨ty, hreturned.llvm⟩ rfl hlocal hact host s.regs s.mem []
  have hentered : (runCode env host s₀.out _).Reached env host (fun _ => True) s.current [] s r₀ :=
    hprologue.reached (fun _ _ => trivial) [] s hs
  rw [hgoes₀] at hentered
  have hlabels : ∀ o, T.jumps.jumpMap o = none := fun o => hjumps ▸ hcode.labels o
  obtain ⟨s₂, r₂, current, hsp₂, hlaid, hpassed⟩ := hlaid.passes hlabels
    (fun entry hentry => (hcode.enters entry hentry).1) host s.regs (env.layout.cleared stored) [] s.current
  have hsp : s₂.stackPointer = 0 := by
    rw [hsp₂, (emitAllocateLocalStructures_stack hlocal).2]
    exact hstub.space
  cases hlaid with
  | @cons _ _ _ s₃ _ _ _ _ r₃ _ _ hpush hlaid =>
      have hframe := T.stack.inFrame_asPtrSize
      have haddressable : T.stack.Addressable (s₂.stackPointer + asPtrSize) := by
        rw [hsp, Int.zero_add, StackFrame.Addressable, if_neg (by decide)]
        rw [StackFrame.InFrame, if_neg (by decide)] at hframe
        exact fun _ => hframe.1
      obtain ⟨rfl, rfl⟩ := hpush.ordinary (by rw [hcode.pushes.1]; rfl)
        (objtype_runs hcode.pushes.1 haddressable)
      obtain ⟨mem₀, hmem₀⟩ : ∃ mem₀, env.layout.cleared stored = mem₀ := ⟨_, rfl⟩
      obtain ⟨mem₁, hmem₁⟩ : ∃ mem₁, Bytes.write mem₀ (T.stack.byteAddress env.layout asPtrSize) 8
          objtype.argPWord = mem₁ := ⟨_, rfl⟩
      rw [hmem₀] at hholds hentered hpassed
      have hstore : (Instr.store .iptr (.const objtype.argPWord) (T.stack.slotAddress asPtrSize)).exec
          env s.regs mem₀ = some (s.regs, mem₁) := by
        have hconst : (Ty.iptr).truncate objtype.argPWord = objtype.argPWord := Ty.truncate_ptr .i8 _
        rw [hframe.exec_store .iptr hact, Operand.eval, hconst, ← hmem₁]
        rfl
      have hgoes : runCode env host (([] : List Piece) ++ [.instr (.store .iptr (.const objtype.argPWord)
          (T.stack.slotAddress (s₂.stackPointer + asPtrSize)))]) ⟨s.regs, mem₀, []⟩ =
            .goes ⟨s.regs, mem₁, []⟩ := by
        rw [List.nil_append, hsp, Int.zero_add, runCode_step hstore]
        rfl
      obtain ⟨pointee, htypes⟩ := hstub.mapM_types (hstub.slots ▸ htys)
      rw [hstub.slots, hstub.hiddenArguments_eq] at hholds
      have hcount : env.args.length = 1 + T.stack.scriptFunction.parameterTypes.length := by
        rw [hargs, List.length_cons, hlen, Nat.add_comm]
      obtain ⟨hframes, hwords⟩ := hstub.arguments hact htypes hholds hcount hmem₁
      rw [hargs] at hwords
      refine ⟨mem₁, _, _, r₃, _, _, _,
        hentered.trans (hpassed.trans (hpush.goes (hlabels _) hgoes current)), hlaid, ?_, htypes, hframes,
        hwords⟩
      rw [EmitState.extend_stackPointer, EmitState.move_stackPointer]
      exact hsp.symm ▸ Int.zero_add _

/-- **`RET` returns the handle** that is in the object register. -/
theorem stub_returns (hstub : FactoryStub T.stack.toFunctionContext factory hidden)
    (hcode : StubBytecode T.stack.toFunctionContext factory entries objtype call ret)
    (hT : translateBytecode T.stack.toFunctionContext (entries ++ [objtype, call, ret]) = .ok T)
    (hact : Activates T env) (hargs : env.args = pointer :: words) (host : Host)
    (calls : List Request) {s : LocalState}
    (hmarker : itemAt T.cfg.blocks s.position = some (.marker ret.offset)) :
    ∃ mem, Returns env host (fun _ => True) calls s VmState.Ok.word calls mem ∧
      Bytes.read mem pointer.toNat 8 = Bytes.read s.mem hact.registers.object 8 := by
  obtain ⟨ty, hreturned⟩ := hstub.returned
  obtain ⟨pointee, rfl⟩ := hreturned.eq_ptr (by rw [hstub.handle]; rfl)
  obtain ⟨ins, sp, ps, q, ho, hretCode⟩ := exists_codeOf_of_marker hcode.walked hT hmarker
  obtain rfl : ins = ret := hcode.walked.eq_of_offset hretCode.mem (by simp) ho
  refine ⟨_, hretCode.ret_returns hcode.returns.1 hact hreturned hstub.stack host calls rfl, ?_⟩
  have huses : T.stack.scriptFunction.returnType.usesObjectRegister = true := by
    rw [DataType.usesObjectRegister, hstub.handle]
    rfl
  have hfirst : env.args.getD 0 0 = pointer := by rw [hargs]; rfl
  rw [hfirst, Ty.truncate_ptr, takenValue, if_pos huses]
  exact Bytes.read_write_same

/-- **A stub forwards its arguments**, from its entry. -/
theorem forwards_of_translated (hstub : FactoryStub context factory hidden)
    (hcode : StubBytecode context factory entries objtype call ret)
    (hT : translateBytecode context (entries ++ [objtype, call, ret]) = .ok T)
    (hact : Activates T env) (hargs : env.args = pointer :: words)
    (hlen : words.length = context.scriptFunction.parameterTypes.length) (host : Host)
    {s : LocalState} (hs : s.position = (.entry, 0)) :
    Forwards factory env host pointer objtype.argPWord
      (typedWords context.scriptFunction.parameterTypes words) s := by
  obtain ⟨ty, hreturned⟩ := hstub.factoryReturned
  obtain ⟨hjumps, s₀, _, _, hlocal, -, -, -⟩ := translateBytecode_laidOut hcode.walked hT
  obtain rfl := (emitAllocateLocalStructures_stack hlocal).1
  have hlabels : ∀ o, T.jumps.jumpMap o = none := fun o => hjumps ▸ hcode.labels o
  obtain ⟨mem, e, tys, r, current, _, _, hstart, hlaid, hat⟩ :=
    stub_comes_to_call hstub hcode hT hact hargs hlen host hs
  cases hlaid with
  | @cons _ _ _ e' _ _ _ _ r₁ _ _ hcall hlaid =>
      have hpop : Poppable T.stack factory.parameterTypes e.stackPointer := by
        rw [hat.stackPointer]
        exact hstub.poppable hlocal
      obtain ⟨rfl, he'⟩ := hcall.ordinary (by rw [hcode.calls.1]; rfl)
        (callsys_runs (.inl hcode.calls.1) hcode.callee (emitSystemCall_cdecl_runs hstub.convention
          hstub.memory hstub.factoryStack hreturned hstub.factoryHandle hat.types hpop))
      have hout : e'.out = factoryCallCode T.stack factory e.nextReg asPtrSize tys ty := by
        rw [he', ← hat.stackPointer]
        rfl
      obtain ⟨p', prepare, request, status, hprepare, hcallee, hpassed, hstatus, hcalls, hends, hgoes⟩ :=
        factoryCallCode_calls host e.nextReg ty hact hstub.factoryHandle hat.types hat.frames hat.words
          s.regs []
      rw [← hout] at hends hgoes
      rw [hcalls] at hgoes
      rcases hends with hgone | ⟨state, hleft⟩
      · cases hlaid with
        | cons hret _ =>
            have hmarker := hret.marker
            have henters := hret.enters
            rw [hlabels] at henters
            cases henters
            rw [hact.blocks] at hmarker
            have hcalled := hstart.trans (hcall.goes (hlabels _) hgone current)
            obtain ⟨mem', ⟨s', hreaches, hok, hmem⟩, hread⟩ := stub_returns hstub hcode hT hact hargs host
              p'.world.calls (s := p'.within r₁ (some call.offset)) hmarker
            have hrun := hcalled.trans hreaches
            rw [hcalls] at hrun
            refine ⟨prepare, request, status, VmState.Ok.word, mem', ⟨s', hrun, hok, hmem⟩, hprepare,
              hcallee, hpassed, hstatus, fun hzero => ⟨rfl, ?_⟩⟩
            obtain ⟨pointee, rfl⟩ := hreturned.eq_ptr (by rw [hstub.factoryHandle]; rfl)
            obtain ⟨stored, -, hstored⟩ := hgoes hzero
            rw [hread, Progress.within, hstored, Ty.truncate_ptr]
            exact Bytes.read_write_same
      · have hcalled : (runCode env host e'.out ⟨s.regs, mem, []⟩).Reached env host (fun _ => True)
            (some call.offset) [] ⟨r, s.regs, mem, current⟩ _ :=
          hcall.reached (hlabels _) s.regs mem [] current
        rw [hleft] at hcalled
        obtain ⟨s', hreaches, hret, hmem⟩ := hcalled
        have hrun := hstart.trans hreaches
        rw [hcalls] at hrun
        refine ⟨prepare, request, status, state, _, ⟨s', hrun, hret, hmem⟩, hprepare, hcallee, hpassed,
          hstatus, fun hzero => ?_⟩
        obtain ⟨_, hgone, -⟩ := hgoes hzero
        exact CodeResult.noConfusion (hleft.symm.trans hgone)

/-- **The pops of a stub** hit its parameters. -/
theorem popsParameters_of_translated (hstub : FactoryStub context factory hidden)
    (hcode : StubBytecode context factory entries objtype call ret)
    (hT : translateBytecode context (entries ++ [objtype, call, ret]) = .ok T) :
    PopsParameters T (entries ++ [objtype, call, ret]) factory call := by
  obtain ⟨ty, hreturned⟩ := hstub.factoryReturned
  obtain ⟨tys, htys⟩ := hstub.exists_types
  obtain ⟨-, s₀, _, _, hlocal, -, -, -⟩ := translateBytecode_laidOut hcode.walked hT
  obtain rfl := (emitAllocateLocalStructures_stack hlocal).1
  refine ⟨?_, fun k type htype => ?_⟩
  · have hsplit : entries ++ [objtype, call, ret] = (entries ++ [objtype]) ++ call :: [ret] := by simp
    have hdepth : depthBefore T.stack.toFunctionContext (entries ++ [objtype]) = asPtrSize := by
      have hobjtype : ∀ depth, stackEffect T.stack.toFunctionContext objtype depth =
          depth + asPtrSize := fun depth => by rw [stackEffect, hcode.pushes.1]
      rw [depthBefore, List.foldl_append, hcode.depth_entries, hstub.space, List.foldl_cons, hobjtype,
        Int.zero_add]
      rfl
    have hwalked := hcode.walked
    rw [hsplit] at hT hwalked ⊢
    obtain ⟨ps, p, q, hat⟩ := exists_codeOf_at _ _ hwalked hT
    rw [hdepth] at hat
    obtain ⟨e, e', hsp, hout, rfl, hruns⟩ := hat.ordinary (by rw [hcode.calls.1]; rfl)
    have hpop : Poppable T.stack factory.parameterTypes e.stackPointer := by
      rw [hsp]
      exact hstub.poppable hlocal
    obtain ⟨-, he'⟩ := hruns.det (callsys_runs (.inl hcode.calls.1) hcode.callee
      (emitSystemCall_cdecl_runs hstub.convention hstub.memory hstub.factoryStack hreturned
        hstub.factoryHandle htys hpop))
    obtain ⟨rest, hrest⟩ : ∃ rest, e'.out =
        popPieces T.stack e.nextReg asPtrSize factory.parameterTypes tys ++ rest := by
      rw [he', ← hsp]
      exact ⟨_, (congrArg (· ++ _) hout).trans (List.nil_append _)⟩
    rw [hrest] at hat
    exact ⟨e.nextReg, tys, rest, p, q, hat⟩
  · rw [← hstub.slots] at htype
    obtain ⟨ty, hty⟩ := (hstub.supported.slots type (List.mem_of_getElem? htype)).exists_toLlvmType
    have hlookup := emitAllocateLocalStructures_lookup hstub.supported hlocal htype hty
    rw [hstub.slots, hstub.hiddenArguments_eq, Nat.add_comm] at hlookup
    exact ⟨ty, hty, by rw [hstub.slotOffset_eq]; exact hlookup⟩

/-- **Template factory stubs forward their own parameters**: a stub is translated, its stack is empty
at the end, every pop below the empty stack hits a parameter, and every activation of the stub passes
its factory the type and its own arguments, in order, and returns the handle that it gets. -/
theorem factoryStub_forwards (hstub : FactoryStub context factory hidden)
    (hcode : StubBytecode context factory entries objtype call ret) :
    ∃ T, translateBytecode context (entries ++ [objtype, call, ret]) = .ok T ∧
      T.emit.stackPointer = context.variableSpace ∧
      PopsParameters T (entries ++ [objtype, call, ret]) factory call ∧
      ∀ env host pointer words s, Activates T env → env.args = pointer :: words →
        words.length = context.scriptFunction.parameterTypes.length → s.position = (.entry, 0) →
        Forwards factory env host pointer objtype.argPWord
          (typedWords context.scriptFunction.parameterTypes words) s := by
  obtain ⟨T, hT, hempty⟩ := translateBytecode_stub hstub hcode
  exact ⟨T, hT, hempty, popsParameters_of_translated hstub hcode hT,
    fun env host pointer words s hact hargs hlen hs =>
      forwards_of_translated hstub hcode hT hact hargs hlen host hs⟩

end Forwarding

/-! ### A stub of two parameters -/

/-- A C factory that takes an `int` and a `double`, behind its type. -/
def arrayFactory : ScriptFunction :=
  { ScriptFunction.free 1 (handleType false)
      [⟨.ttInt, true, true, false, false, none, asPtrSize⟩, .primitive .ttInt, .primitive .ttDouble] 0 with
    funcType := .asFUNC_SYSTEM
    sysFuncIntf := ⟨.ICC_CDECL, false, 0⟩ }

/-- Its stub. -/
def stubContext : FunctionContext where
  engine := .ofFunctions [arrayFactory]
  config := ⟨false, true⟩
  scriptFunction :=
    { ScriptFunction.free 2 (handleType false) [.primitive .ttInt, .primitive .ttDouble] 0 with
      scriptData := ⟨0, 2, Nat.zero_le 2⟩ }

/-- The entry of the JIT in front of the stub. -/
def stubEntry : BytecodeInstruction := ⟨[0, 0, 0], ⟨.JitEntry, 3, 0, by decide⟩, 0⟩

/-- The type of the instance is pushed. -/
def stubObjtype : BytecodeInstruction := ⟨[0, 7, 0], ⟨.OBJTYPE, 3, 2, by decide⟩, 3⟩

/-- The factory is called. -/
def stubCall : BytecodeInstruction := callSysAt 1 6

theorem arrayFactory_stub : FactoryStub stubContext arrayFactory
    ⟨.ttInt, true, true, false, false, none, asPtrSize⟩ where
  supported := {
    slots := fun slot hslot => by
      obtain rfl | rfl : slot = .primitive .ttInt ∨ slot = .primitive .ttDouble := by
        simpa [stubContext, scriptCallSlots, ScriptFunction.ReturnsOnStack, ScriptFunction.free]
          using hslot
      · exact DataType.primitive_supported (by simp) (by simp)
      · exact DataType.primitive_supported (by simp) (by simp)
    returned := fun _ => rfl }
  space := rfl
  object := rfl
  stack := rfl
  returned := ⟨_, handleType_returned false⟩
  handle := rfl
  convention := rfl
  memory := rfl
  factoryStack := rfl
  factoryReturned := ⟨_, handleType_returned false⟩
  factoryHandle := rfl
  parameters := rfl
  reference := ⟨⟨by simp, by simp, by simp⟩, rfl⟩

theorem stubBytecode_code : StubBytecode stubContext arrayFactory [stubEntry] stubObjtype stubCall
    (retAt 8) where
  enters entry hentry := by
    obtain rfl := List.mem_singleton.mp hentry
    exact ⟨rfl, rfl⟩
  pushes := ⟨rfl, rfl⟩
  calls := ⟨rfl, rfl⟩
  callee := rfl
  returns := ⟨rfl, rfl⟩
  walked := by
    simp [stubEntry, stubObjtype, stubCall, callSysAt, retAt, WalkedFrom, BytecodeInstruction.next]

/-- The offsets of its parameters. -/
theorem translateBytecode_stub_parameters :
    ∃ T, translateBytecode stubContext ([stubEntry] ++ [stubObjtype, stubCall, retAt 8]) = .ok T ∧
      T.stack.parameters.map Prod.fst = [-1, 0] := exists_ok_of_map (by decide +kernel)

/-- The stub in particular, called with 3 and the bits 4. -/
theorem factoryStub_forwards_array : ∃ T env s, Activates T env ∧
    translateBytecode stubContext ([stubEntry] ++ [stubObjtype, stubCall, retAt 8]) = .ok T ∧
    Forwards arrayFactory env .idle 4096 7 [3, 4] s := by
  obtain ⟨T, hT, -, -, hforwards⟩ := factoryStub_forwards arrayFactory_stub stubBytecode_code
  obtain ⟨T', hT', hoffsets⟩ := translateBytecode_stub_parameters
  obtain rfl := Except.ok.inj (hT.symm.trans hT')
  have htotal : T.stack.totalSpace ≤ 2 ^ 32 := by
    rw [show T.stack.toFunctionContext = stubContext from translateBytecode_stack hT]
    decide
  have hact := T.activates_env htotal [4096, 3, 4] fun entry hentry => by
    have hoffset : entry.1 ∈ [(-1 : ℤ), 0] := hoffsets ▸ List.mem_map_of_mem hentry
    rcases List.mem_cons.mp hoffset with h | h
    · omega
    · have := List.mem_singleton.mp h
      omega
  exact ⟨T, _, ⟨(.entry, 0), fun _ => 0, fun _ => 0, none⟩, hact, hT,
    hforwards _ _ _ [3, 4] _ hact rfl rfl rfl⟩

end Asllvm
