import Asllvm.Successors
import Asllvm.SystemCalls

/-!
# The Stack Pointer Is the Depth

The translator keeps one integer, `m_stack_pointer`, over a textual scan of the bytecode; the
temporary stack it stands for is pushed and popped along the control flow. `stackEffect` is what
an instruction does to the depth of that stack, call by call, and `depthAlong` what a whole path
does.

With assertions enabled the two agree. Along the text the translator applies the effect of each
instruction itself (`translateOpcode_stackPointer`); and wherever control leaves the text, the
assertions at the labels, and the one in `finalize`, have the depth empty at both ends
(`SplitAt.stackPointer_next`).

## Main results

* `emitScriptCall_stackPointer`, `emitSystemCall_stackPointer` — the effects of the calls.
* `translateOpcode_stackPointer` — the effect of every instruction.
* `depthAlong_eq_stackPointer` — the depth along every path is the stack pointer of the scan.
-/

open StateExcept Slots

namespace Asllvm

/-! ### The effects of the instructions -/

/-- A script call takes its slots off the stack. -/
def scriptCallEffect (engine : Engine) (callee : ScriptFunction) (depth : ℤ) : ℤ :=
  depth - slotDWords (scriptCallSlots engine callee)

/-- A system call takes its slots off the stack, but never goes below the variables. -/
def systemCallEffect (context : FunctionContext) (function : ScriptFunction) (depth : ℤ) : ℤ :=
  max (depth - slotDWords function.systemCallSlots) context.variableSpace

/-- An allocation pushes the object for its constructor and pops where it goes. -/
def allocEffect (context : FunctionContext) (ins : BytecodeInstruction) (depth : ℤ) : ℤ :=
  let constructor := context.engine.getFunctionById (ins.argInt asPtrSize)
  if (context.engine.objectTypeAt ins.argPWord).isScriptObject then
    constructor.elim depth fun f => scriptCallEffect context.engine f (depth + asPtrSize) - asPtrSize
  else if ins.argInt asPtrSize ≠ 0 then
    constructor.elim depth fun f => systemCallEffect context f (depth + asPtrSize) - asPtrSize
  else depth - asPtrSize

/-- **The stack effect of an instruction**: the depth after it, for the depth before it. -/
def stackEffect (context : FunctionContext) (ins : BytecodeInstruction) (depth : ℤ) : ℤ :=
  match ins.bc with
  | .PopPtr | .PopRPtr | .REFCPY => depth - asPtrSize
  | .PshC4 | .PshV4 | .PshG4 => depth + 1
  | .PshC8 | .PshV8 => depth + 2
  | .PshGPtr | .PSF | .PshVPtr | .PshRPtr | .OBJTYPE | .PGA | .VAR | .FuncPtr | .PshListElmnt =>
      depth + asPtrSize
  | .CALL | .CALLINTF =>
      (context.engine.getFunctionById ins.argInt).elim depth fun callee =>
        scriptCallEffect context.engine callee depth
  | .CALLSYS | .Thiscall1 =>
      (context.engine.getFunctionById ins.argInt).elim depth fun function =>
        systemCallEffect context function depth
  | .ALLOC => allocEffect context ins depth
  | _ => depth

section Calls

variable {stack : StackFrame} {callee function : ScriptFunction} {s t : EmitState} {n m : ℕ}

/-- The first arguments of a script call. -/
theorem returnArguments_stackPointer {types : List Ty} {vs : List Value}
    (h : Runs (returnArguments stack none callee types) s (vs, m) t) :
    m = slotDWords (if callee.ReturnsOnStack then [callee.returnType] else []) ∧
      t.stackPointer = s.stackPointer - m := by
  rw [returnArguments] at h
  by_cases hstack : callee.ReturnsOnStack
  · rw [if_pos hstack.1, if_pos hstack.2, runs_bind] at h
    obtain ⟨⟨v, k⟩, u, hpop, h⟩ := h
    obtain ⟨hvs, rfl⟩ := runs_pure.mp h
    obtain ⟨-, rfl⟩ := Prod.mk.inj hvs
    have hsp : s.stackPointer = s.stackPointer - (0 : ℕ) := by simp
    have hpopped := popArgument_popped hsp hpop
    rw [if_pos hstack]
    exact ⟨by simpa using hpopped.read, hpopped.stackPointer⟩
  · rw [if_neg hstack, slotDWords, total_nil]
    by_cases hvoid : callee.returnType.tokenType ≠ .ttVoid
    · rw [if_pos hvoid, if_neg fun hreturn => hstack ⟨hvoid, hreturn⟩, runs_bind] at h
      obtain ⟨ty, u, hty, h⟩ := h
      obtain ⟨-, rfl⟩ := runs_elementAt.mp hty
      have hzero : m = 0 ∧ t.stackPointer = u.stackPointer := by
        split at h
        · obtain ⟨hvs, rfl⟩ := runs_pure.mp h
          exact ⟨(Prod.mk.inj hvs).2, rfl⟩
        · split at h
          · obtain ⟨hvs, rfl⟩ := runs_pure.mp h
            exact ⟨(Prod.mk.inj hvs).2, rfl⟩
          · simp only [runs_bind, runs_asllvmAssert, runs_pure] at h
            obtain ⟨_, _, ⟨-, rfl⟩, hvs, rfl⟩ := h
            exact ⟨(Prod.mk.inj hvs).2, rfl⟩
      exact ⟨hzero.1, by rw [hzero.1, hzero.2]; simp⟩
    · rw [if_neg hvoid] at h
      obtain ⟨hvs, rfl⟩ := runs_pure.mp h
      obtain ⟨-, rfl⟩ := Prod.mk.inj hvs
      exact ⟨rfl, by simp⟩

/-- **A script call lowers the stack pointer by its slots**. -/
theorem emitScriptCall_stackPointer (h : Runs (emitScriptCall stack callee) s n t) :
    t.stackPointer = scriptCallEffect stack.engine callee s.stackPointer := by
  simp only [emitScriptCall, runs_bind, runs_asllvmAssert, runs_lift, runs_createCall_i8,
    runs_emitCheckVmState, runs_pure] at h
  obtain ⟨_, s₀, ⟨-, rfl⟩, types, s₀', ⟨-, rfl⟩, target, s₁, htarget, ⟨returned, n₁⟩, s₂,
    hreturned, ⟨object, n₂⟩, s₃, hobject, ⟨parameters, n₃⟩, s₄, hparameters, _, _, ⟨rfl, rfl⟩,
    _, _, rfl, rfl, rfl⟩ := h
  have hsame : s₁.stackPointer = s₀'.stackPointer := stackPointer_of_runs htarget
  obtain ⟨hread, hsp⟩ := returnArguments_stackPointer hreturned
  have hobject' := objectArguments_popped hsp hobject
  have hparameters' := parameterArguments_popped hobject'.stackPointer hparameters
  have hread₂ := hobject'.read
  have hread₃ := hparameters'.read
  have hsp₄ := hparameters'.stackPointer
  simp only [EmitState.extend_stackPointer, scriptCallEffect, scriptCallSlots, slotDWords,
    total_append] at hread hread₂ hread₃ ⊢
  omega

theorem popObject_stackPointer {paramTypes : List Ty} {index : ℕ} {st st' : SystemCallArguments}
    (h : Runs (popObject stack paramTypes index st) s st' t) :
    st'.scriptParamIndex = st.scriptParamIndex ∧ t.stackPointer = s.stackPointer - asPtrSize := by
  simp only [popObject, runs_bind, runs_elementAt, StackFrame.runs_pop, runs_pure] at h
  obtain ⟨_, _, ⟨-, rfl⟩, _, _, ⟨-, -, rfl⟩, rfl, rfl⟩ := h
  exact ⟨rfl, rfl⟩

theorem popSretPointer_stackPointer {paramTypes : List Ty} {st st' : SystemCallArguments}
    (h : Runs (popSretPointer stack paramTypes st) s st' t) :
    st'.scriptParamIndex = st.scriptParamIndex ∧ t.stackPointer = s.stackPointer - asPtrSize := by
  simp only [popSretPointer, runs_bind, runs_elementAt, StackFrame.runs_pop, runs_pure] at h
  obtain ⟨_, _, ⟨-, rfl⟩, _, _, ⟨-, -, rfl⟩, rfl, rfl⟩ := h
  exact ⟨rfl, rfl⟩

/-- The next parameter is popped. -/
def PopsParam (function : ScriptFunction) (st st' : SystemCallArguments) (s t : EmitState) : Prop :=
  ∃ type, function.parameterTypes[st.scriptParamIndex]? = some type ∧
    st'.scriptParamIndex = st.scriptParamIndex + 1 ∧
    t.stackPointer = s.stackPointer - type.sizeOnStackDWords

theorem popParam_stackPointer {paramTypes : List Ty} {st st' : SystemCallArguments}
    (h : Runs (popParam stack function paramTypes st) s st' t) : PopsParam function st st' s t := by
  simp only [popParam, runs_bind, runs_elementAt, StackFrame.runs_pop, runs_pure] at h
  obtain ⟨_, _, ⟨-, rfl⟩, type, _, ⟨htype, rfl⟩, _, _, ⟨-, -, rfl⟩, rfl, rfl⟩ := h
  exact ⟨type, htype, rfl, rfl⟩

/-- One iteration of the argument loop of a system call: a hidden slot, or the next parameter. -/
theorem systemCallArgument_stackPointer {paramTypes : List Ty} {st st' : SystemCallArguments}
    {i : ℕ} (hconv : function.sysFuncIntf.callConv ≠ .ICC_OTHER)
    (hcdecl : ¬ (function.sysFuncIntf.callConv = .ICC_CDECL ∧
      function.sysFuncIntf.hostReturnInMemory = true))
    (h : Runs (systemCallArgument stack function paramTypes st i) s st' t) :
    if i < function.loopHidden then
      st'.scriptParamIndex = st.scriptParamIndex ∧ t.stackPointer = s.stackPointer - asPtrSize
    else PopsParam function st st' s t := by
  by_cases hfirst : function.sysFuncIntf.callConv.objectFirst = true
  · have hobject : function.sysFuncIntf.callConv.hasObject = true := by
      revert hfirst
      cases function.sysFuncIntf.callConv <;> decide
    rw [systemCallArgument_objectFirst hfirst] at h
    by_cases hmem : function.sysFuncIntf.hostReturnInMemory = true
    · have hhidden : function.loopHidden = 2 := by simp [ScriptFunction.loopHidden, hobject, hmem]
      rw [if_pos hmem] at h
      rw [hhidden]
      rcases i with _ | _ | i
      · exact popObject_stackPointer h
      · obtain ⟨st₁, u, hpop, h⟩ := runs_bind.mp h
        obtain ⟨rfl, rfl⟩ := runs_pure.mp h
        have hsp := popSretPointer_stackPointer hpop
        exact ⟨hsp.1, hsp.2⟩
      · rw [if_neg (by omega)]
        exact popParam_stackPointer h
    · have hhidden : function.loopHidden = 1 := by simp [ScriptFunction.loopHidden, hobject, hmem]
      rw [if_neg hmem] at h
      rw [hhidden]
      rcases i with _ | i
      · obtain ⟨st₁, u, hpop, h⟩ := runs_bind.mp h
        obtain ⟨rfl, rfl⟩ := runs_pure.mp h
        have hsp := popObject_stackPointer hpop
        exact ⟨hsp.1, hsp.2⟩
      · rw [if_neg (by omega)]
        exact popParam_stackPointer h
  by_cases hlast : function.sysFuncIntf.callConv = .ICC_CDECL_OBJLAST
  · rw [systemCallArgument_objectLast hlast] at h
    by_cases hmem : function.sysFuncIntf.hostReturnInMemory = true
    · have hhidden : function.loopHidden = 2 := by
        simp [ScriptFunction.loopHidden, hlast, hmem, CallConv.hasObject]
      rw [hhidden]
      rcases i with _ | _ | i
      · exact popObject_stackPointer h
      · rw [if_neg (by omega), if_pos (by simp [hmem])] at h
        obtain ⟨st₁, u, hpop, h⟩ := runs_bind.mp h
        obtain ⟨rfl, rfl⟩ := runs_pure.mp h
        have hsp := popSretPointer_stackPointer hpop
        exact ⟨hsp.1, hsp.2⟩
      · rw [if_neg (by omega), if_neg (by simp)] at h
        rw [if_neg (by omega)]
        exact popParam_stackPointer h
    · have hhidden : function.loopHidden = 1 := by
        simp [ScriptFunction.loopHidden, hlast, hmem, CallConv.hasObject]
      rw [hhidden]
      rcases i with _ | i
      · exact popObject_stackPointer h
      · rw [if_neg (by omega), if_neg (by simp [hmem])] at h
        rw [if_neg (by omega)]
        exact popParam_stackPointer h
  · have hcdecl' : function.sysFuncIntf.callConv = .ICC_CDECL := by
      revert hfirst hlast hconv
      cases function.sysFuncIntf.callConv <;> simp [CallConv.objectFirst]
    have hmem : function.sysFuncIntf.hostReturnInMemory = false := by simpa [hcdecl'] using hcdecl
    have hhidden : function.loopHidden = 0 := by
      simp [ScriptFunction.loopHidden, hcdecl', hmem, CallConv.hasObject]
    rw [systemCallArgument_cdecl hcdecl'] at h
    rw [hhidden, if_neg (by omega)]
    exact popParam_stackPointer h

/-- **The first iterations of the argument loop** pop the hidden slots and then parameters, in
order; by induction on how many there were. -/
theorem systemCallArguments_stackPointer {paramTypes : List Ty} {st st' : SystemCallArguments}
    (hconv : function.sysFuncIntf.callConv ≠ .ICC_OTHER)
    (hcdecl : ¬ (function.sysFuncIntf.callConv = .ICC_CDECL ∧
      function.sysFuncIntf.hostReturnInMemory = true)) (hst : st.scriptParamIndex = 0)
    (h : Runs ((List.range m).foldlM (systemCallArgument stack function paramTypes) st) s st' t) :
    st'.scriptParamIndex = m - function.loopHidden ∧
      t.stackPointer = s.stackPointer - slotDWords (function.loopSlots.take m) := by
  induction m generalizing st' t with
  | zero =>
      obtain ⟨rfl, rfl⟩ := runs_foldlM_nil.mp h
      exact ⟨by simp [hst], by simp⟩
  | succ m ih =>
      rw [List.range_succ, runs_foldlM_append] at h
      obtain ⟨st₁, u, hfirst, hlast⟩ := h
      obtain ⟨st₂, v, hlast, hnil⟩ := runs_foldlM_cons.mp hlast
      obtain ⟨rfl, rfl⟩ := runs_foldlM_nil.mp hnil
      obtain ⟨hindex, hsp⟩ := ih hfirst
      have hstep := systemCallArgument_stackPointer hconv hcdecl hlast
      by_cases hlt : m < function.loopHidden
      · rw [if_pos hlt] at hstep
        have hslot : function.loopSlots[m]? = some pointerSlot := by
          rw [ScriptFunction.loopSlots, List.getElem?_append_left (by simpa using hlt),
            List.getElem?_replicate, if_pos hlt]
        rw [List.take_add_one, hslot, slotDWords, total_append]
        refine ⟨by omega, ?_⟩
        rw [hstep.2, hsp, slotDWords]
        simp
        omega
      · rw [if_neg hlt] at hstep
        obtain ⟨type, htype, hindex', hsp'⟩ := hstep
        have hslot : function.loopSlots[m]? = some type := by
          rw [ScriptFunction.loopSlots, List.getElem?_append_right (by simpa using hlt),
            List.length_replicate, ← hindex, htype]
        rw [List.take_add_one, hslot, slotDWords, total_append]
        refine ⟨by omega, ?_⟩
        rw [hsp', hsp, slotDWords]
        simp
        omega

/-- The signature of a system function has one type for each of its parameters, and one for each
hidden slot of its argument loop. -/
theorem getSystemFunctionType_length {returnType : Ty} {paramTypes : List Ty}
    (h : getSystemFunctionType function = .ok (returnType, paramTypes)) :
    function.sysFuncIntf.callConv ≠ .ICC_OTHER ∧
      paramTypes.length = function.loopHidden + function.parameterTypes.length := by
  obtain ⟨ty, -, h⟩ := except_bind_ok.mp h
  obtain ⟨tys, htys, h⟩ := except_bind_ok.mp h
  have hlen := (mapM_eq_ok.mp htys).length_eq
  cases hconv : function.sysFuncIntf.callConv <;> rw [hconv] at h
  case ICC_OTHER => exact absurd h (by simp)
  all_goals
    obtain ⟨-, rfl⟩ := Prod.mk.inj (Except.ok.inj h)
    refine ⟨by simp, ?_⟩
    cases hmem : function.sysFuncIntf.hostReturnInMemory <;>
      simp [ScriptFunction.loopHidden, hconv, hmem, CallConv.hasObject, hlen] <;> omega

/-- The return address that is popped before the argument loop. -/
theorem popReturnPointer_stackPointer {returnType : Ty} {returnPointer : Option Value}
    (h : Runs (popReturnPointer stack function returnType) s returnPointer t) :
    t.stackPointer = s.stackPointer -
      slotDWords (List.replicate (if function.popsReturnFirst then 1 else 0) pointerSlot) := by
  rw [popReturnPointer, ← ScriptFunction.popsReturnFirst] at h
  by_cases hreturn : function.popsReturnFirst = true
  · rw [if_pos hreturn] at h
    obtain ⟨_, _, hrun, h⟩ := runs_bind.mp h
    obtain ⟨-, -, rfl⟩ := (StackFrame.runs_pop stack).mp hrun
    obtain ⟨-, rfl⟩ := runs_pure.mp h
    rw [if_pos hreturn, slotDWords, total_replicate_pointerSlot]
    simp [asPtrSize]
    omega
  · rw [if_neg hreturn] at h
    obtain ⟨-, rfl⟩ := runs_pure.mp h
    rw [if_neg hreturn, slotDWords, total_replicate_pointerSlot]
    simp

/-- **A system call lowers the stack pointer by its slots**, down to the variables. -/
theorem emitSystemCall_stackPointer (h : Runs (emitSystemCall stack function) s () t) :
    t.stackPointer = systemCallEffect stack.toFunctionContext function s.stackPointer := by
  simp only [emitSystemCall, runs_bind, runs_lift] at h
  obtain ⟨⟨returnType, paramTypes⟩, s₀, ⟨hsig, rfl⟩, returnPointer, s₁, hpop, st, s₂, hargs, h⟩ := h
  obtain ⟨hconv, hlen⟩ := getSystemFunctionType_length hsig
  have hcdecl : ¬ (function.sysFuncIntf.callConv = .ICC_CDECL ∧
      function.sysFuncIntf.hostReturnInMemory = true) := by
    rintro ⟨hcdecl, hmem⟩
    have hhidden : function.loopHidden = 1 := by
      simp [ScriptFunction.loopHidden, hcdecl, hmem, CallConv.hasObject]
    cases paramTypes with
    | nil =>
        rw [List.length_nil] at hlen
        omega
    | cons ty tys => exact cdecl_mem_not_runs hcdecl (by simp at hlen; omega) hargs
  have hfirst := popReturnPointer_stackPointer hpop
  obtain ⟨-, hloop⟩ := systemCallArguments_stackPointer hconv hcdecl rfl hargs
  have htake : function.loopSlots.take paramTypes.length = function.loopSlots := by
    rw [hlen]
    exact List.take_of_length_le (by simp [ScriptFunction.loopSlots])
  rw [htake] at hloop
  -- what follows the loop only clamps
  simp only [finishSystemCall, runs_bind, StackFrame.runs_uglyHack] at h
  obtain ⟨_, s₃, hcheck, callee, s₄, hcallee, result, s₅, hcall, _, s₆, hstore, rfl⟩ := h
  have h₃ : s₃.stackPointer = s₂.stackPointer := stackPointer_of_runs hcheck
  have h₄ : s₄.stackPointer = s₃.stackPointer := stackPointer_of_runs hcallee
  have h₅ : s₅.stackPointer = s₄.stackPointer := stackPointer_of_runs hcall
  have h₆ : s₆.stackPointer = s₅.stackPointer := stackPointer_of_runs hstore
  rw [systemCallEffect, ScriptFunction.systemCallSlots, slotDWords, total_append]
  simp only [h₆, h₅, h₄, h₃, hloop, hfirst, slotDWords]
  congr 1
  push_cast
  omega

end Calls

/-! ### Every instruction -/

section Instructions

variable {stack : StackFrame} {jumps : JumpTables} {ins : BytecodeInstruction}
  {s t : EmitState} {term : Option Terminator}

theorem allocScriptObject_stackPointer {constructorId : ℤ}
    (h : Runs (allocScriptObject stack ins constructorId) s () t) :
    ∃ constructor, stack.engine.getFunctionById constructorId = some constructor ∧
      t.stackPointer =
        scriptCallEffect stack.engine constructor (s.stackPointer + asPtrSize) - asPtrSize := by
  simp only [allocScriptObject, runs_bind, runs_createCall_ptr, runs_dereference,
    StackFrame.runs_currentStackPointer, StackFrame.runs_load, runs_createStore,
    StackFrame.runs_push, StackFrame.runs_popDWords] at h
  obtain ⟨_, _, ⟨rfl, rfl⟩, constructor, _, ⟨hconstructor, rfl⟩, _, _, ⟨rfl, rfl⟩, _, _,
    ⟨-, rfl, rfl⟩, _, _, rfl, _, _, ⟨-, rfl⟩, n, u, hcall, rfl⟩ := h
  have hsp := emitScriptCall_stackPointer hcall
  exact ⟨constructor, hconstructor, by simpa [Int.sub_eq_add_neg] using hsp⟩

theorem allocNativeObject_stackPointer {type : ObjectType} {constructorId : ℤ}
    (h : Runs (allocNativeObject stack type constructorId) s () t) :
    if constructorId ≠ 0 then
      ∃ constructor, stack.engine.getFunctionById constructorId = some constructor ∧
        t.stackPointer = systemCallEffect stack.toFunctionContext constructor
          (s.stackPointer + asPtrSize) - asPtrSize
    else t.stackPointer = s.stackPointer - asPtrSize := by
  rw [allocNativeObject, runs_bind] at h
  obtain ⟨_, _, hobject, h⟩ := h
  obtain ⟨rfl, rfl⟩ := runs_createCall_ptr.mp hobject
  dsimp only at h
  by_cases hid : constructorId ≠ 0
  · rw [if_pos hid] at h ⊢
    simp only [runs_bind, StackFrame.runs_push, runs_dereference, StackFrame.runs_pop,
      runs_createStore] at h
    obtain ⟨_, _, ⟨-, rfl⟩, constructor, _, ⟨hconstructor, rfl⟩, _, u, hcall, _, _,
      ⟨-, -, rfl⟩, rfl⟩ := h
    have hsp := emitSystemCall_stackPointer hcall
    exact ⟨constructor, hconstructor, by simpa [Int.sub_eq_add_neg] using hsp⟩
  · rw [if_neg hid] at h ⊢
    simp only [runs_bind, StackFrame.runs_pop, runs_createStore] at h
    obtain ⟨_, _, ⟨-, -, rfl⟩, rfl⟩ := h
    rfl

theorem translateAlloc_stackPointer (h : Runs (translateAlloc stack ins) s () t) :
    t.stackPointer = allocEffect stack.toFunctionContext ins s.stackPointer := by
  rw [translateAlloc] at h
  rw [allocEffect]
  by_cases hscript : (stack.engine.objectTypeAt ins.argPWord).isScriptObject = true
  · rw [if_pos hscript] at h ⊢
    obtain ⟨constructor, hconstructor, hsp⟩ := allocScriptObject_stackPointer h
    rw [hconstructor]
    exact hsp
  · rw [if_neg hscript] at h ⊢
    have hsp := allocNativeObject_stackPointer h
    by_cases hid : ins.argInt asPtrSize ≠ 0
    · rw [if_pos hid] at hsp ⊢
      obtain ⟨constructor, hconstructor, hsp⟩ := hsp
      rw [hconstructor]
      exact hsp
    · rw [if_neg hid] at hsp ⊢
      exact hsp

theorem translateRefCpy_stackPointer (h : Runs (translateRefCpy stack ins) s () t) :
    t.stackPointer = s.stackPointer - asPtrSize := by
  rw [translateRefCpy, runs_bind] at h
  obtain ⟨destination, u, hpop, h⟩ := h
  obtain ⟨-, -, rfl⟩ := (StackFrame.runs_pop stack).mp hpop
  exact stackPointer_of_runs h

theorem translateOrdinary_stackPointer (h : Runs (translateOrdinary stack ins) s () t) :
    t.stackPointer = stackEffect stack.toFunctionContext ins s.stackPointer := by
  rw [translateOrdinary] at h
  rw [stackEffect]
  cases hbc : ins.bc <;> rw [hbc] at h <;> dsimp only at h ⊢
  case PopPtr =>
    rw [(StackFrame.runs_popDWords).mp h]
    rfl
  case PopRPtr =>
    obtain ⟨_, _, hpop, h⟩ := runs_bind.mp h
    obtain ⟨-, -, rfl⟩ := (StackFrame.runs_pop stack).mp hpop
    exact stackPointer_of_runs h
  case REFCPY => exact translateRefCpy_stackPointer h
  case PshC4 | PshC8 | OBJTYPE | PGA | VAR | FuncPtr =>
    obtain ⟨-, rfl⟩ := (StackFrame.runs_push stack).mp h
    rfl
  case PshV4 | PshG4 | PshV8 | PshGPtr | PSF | PshVPtr | PshRPtr =>
    obtain ⟨value, u, hvalue, h⟩ := runs_bind.mp h
    obtain ⟨-, rfl⟩ := (StackFrame.runs_push stack).mp h
    have hsp : u.stackPointer = s.stackPointer := stackPointer_of_runs hvalue
    exact congrArg (· + _) hsp
  case PshListElmnt =>
    obtain ⟨pointer, u, hpointer, h⟩ := runs_bind.mp h
    obtain ⟨target, v, htarget, h⟩ := runs_bind.mp h
    obtain ⟨-, rfl⟩ := (StackFrame.runs_push stack).mp h
    have hu : u.stackPointer = s.stackPointer := stackPointer_of_runs hpointer
    have hv : v.stackPointer = u.stackPointer := stackPointer_of_runs htarget
    exact congrArg (· + _) (hv.trans hu)
  case CALL | CALLINTF =>
    simp only [runs_bind, runs_dereference, runs_pure] at h
    obtain ⟨callee, _, ⟨hcallee, rfl⟩, n, _, hcall, -, rfl⟩ := h
    rw [hcallee]
    exact emitScriptCall_stackPointer hcall
  case CALLSYS | Thiscall1 =>
    simp only [runs_bind, runs_asllvmAssert, runs_dereference] at h
    obtain ⟨_, _, ⟨-, rfl⟩, function, _, ⟨hfunction, rfl⟩, hcall⟩ := h
    rw [hfunction]
    exact emitSystemCall_stackPointer hcall
  case ALLOC => exact translateAlloc_stackPointer h
  all_goals exact stackPointer_of_runs h

/-- **Translating an instruction has its stack effect** on the stack pointer. -/
theorem translateOpcode_stackPointer (h : Runs (translateOpcode stack jumps ins) s term t) :
    t.stackPointer = stackEffect stack.toFunctionContext ins s.stackPointer := by
  cases hends : ins.bc.endsBlock with
  | true =>
      have hbalanced : Emits Balanced (translateOpcode stack jumps ins) :=
        translateOpcode_emits_of_endsBlock stack jumps ins hends
      have hsame : stackEffect stack.toFunctionContext ins s.stackPointer = s.stackPointer := by
        rw [stackEffect]
        revert hends
        cases ins.bc <;> simp [Opcode.endsBlock, Opcode.isConditionalJump]
      rw [hsame]
      exact hbalanced.effect h
  | false =>
      rw [translateOpcode_of_ordinary stack jumps ins hends, runs_bind] at h
      obtain ⟨_, u, hcode, h⟩ := h
      obtain ⟨-, rfl⟩ := runs_pure.mp h
      exact translateOrdinary_stackPointer hcode

end Instructions

/-! ### The depth along a path -/

/-- The instruction at an offset. -/
def instructionAt (bytecode : List BytecodeInstruction) (offset : ℕ) : Option BytecodeInstruction :=
  bytecode.find? (·.offset = offset)

/-- The depth after the instructions at the given offsets, one after another. -/
def depthAlong (context : FunctionContext) (bytecode : List BytecodeInstruction) :
    List ℕ → ℤ → ℤ
  | [], depth => depth
  | o :: os, depth => depthAlong context bytecode os
      ((instructionAt bytecode o).elim depth (stackEffect context · depth))

/-- The scan of the bytecode translated the instruction at `offset` with the stack pointer `sp`. -/
def TranslatedAt (context : FunctionContext) (bytecode : List BytecodeInstruction) (offset : ℕ)
    (sp : ℤ) : Prop :=
  ∃ pre ins post stack st, bytecode = pre ++ ins :: post ∧ ins.offset = offset ∧
    ScannedTo context (preprocess bytecode) pre stack st ∧ st.emit.stackPointer = sp

section Paths

variable {context : FunctionContext} {bytecode : List BytecodeInstruction}
  {ins ins' : BytecodeInstruction} {T : Translation} {st st' : BuilderState} {p p' : Position}

theorem instructionAt_eq (hwalked : Walked bytecode) (hins : ins ∈ bytecode) :
    instructionAt bytecode ins.offset = some ins := by
  obtain ⟨pre, post, rfl⟩ := List.append_of_mem hins
  have hpre : pre.find? (·.offset = ins.offset) = none := by
    rw [List.find?_eq_none]
    intro x hx
    simpa using (hwalked.lt_offset.1 x hx).ne
  rw [instructionAt, List.find?_append, hpre]
  simp

/-- The local structures leave the stack empty. -/
theorem emitAllocateLocalStructures_stack {stack : StackFrame} {s t : EmitState}
    (h : Runs (emitAllocateLocalStructures context) s stack t) :
    stack.toFunctionContext = context ∧ t.stackPointer = context.variableSpace := by
  simp only [emitAllocateLocalStructures, runs_bind, runs_emitInstr, runs_modify, runs_createStore,
    runs_pure] at h
  obtain ⟨_, _, rfl, _, _, rfl, _, _, rfl, parameters, u, -, _, _, rfl, _, _, rfl, _, _, rfl, _, _,
    rfl, rfl, rfl⟩ := h
  exact ⟨rfl, rfl⟩

theorem ScannedTo.context_eq {pre : List BytecodeInstruction} {jumps : JumpTables}
    {stack : StackFrame} (h : ScannedTo context jumps pre stack st) :
    stack.toFunctionContext = context := by
  obtain ⟨s₀, hlocal, -⟩ := h
  exact (emitAllocateLocalStructures_stack hlocal).1

theorem Located.stack_eq (h : Located context T bytecode ins st p) :
    T.stack.toFunctionContext = context := by
  obtain ⟨_, _, _, _, _, _, -, hsplit⟩ := h
  exact hsplit.scanned.context_eq

/-- The stack pointer the scan had at an instruction. -/
theorem Located.translatedAt_iff (hwalked : Walked bytecode)
    (htranslate : translateBytecode context bytecode = .ok T)
    (h : Located context T bytecode ins st p) {sp : ℤ} :
    TranslatedAt context bytecode ins.offset sp ↔ sp = st.emit.stackPointer := by
  have hT : T.jumps = preprocess bytecode := (runs_translateBytecode htranslate).1
  obtain ⟨pre, post, _, _, _, _, hbytecode, hsplit⟩ := h
  constructor
  · rintro ⟨pre', ins', post', stack, st', heq, ho, hscanned, rfl⟩
    rw [hbytecode] at hwalked
    obtain ⟨rfl, -, -⟩ := hwalked.split_unique (hbytecode.symm.trans heq) ho.symm
    rw [← hT] at hscanned
    rw [(hscanned.det hsplit.scanned).2]
  · rintro rfl
    exact ⟨pre, ins, post, T.stack, st, hbytecode, rfl, hT ▸ hsplit.scanned, rfl⟩

/-- At a label the stack is empty. -/
theorem Located.empty_of_hasLabel (hassert : context.config.assertions = true)
    (h : Located context T bytecode ins st p) (hlabel : T.jumps.HasLabel ins.offset) :
    st.emit.stackPointer = context.variableSpace := by
  have hstack := h.stack_eq
  obtain ⟨_, _, _, _, _, _, -, hsplit⟩ := h
  have hempty := hsplit.here.emptyAtLabel (by rw [hstack]; exact hassert) hlabel
  rwa [hstack] at hempty

/-- **The stack pointer follows control**: at the instruction that comes next it is what the stack
effect says. Within the text that is what the translator computes; elsewhere both ends are
labels. -/
theorem Located.stackPointer_next (hassert : context.config.assertions = true)
    (hwalked : Walked bytecode) (htranslate : translateBytecode context bytecode = .ok T)
    (hclosers : ClosersLabelled T.jumps bytecode) (h : Located context T bytecode ins st p)
    (h' : Located context T bytecode ins' st' p') (hnext : NextInstruction T.cfg.blocks p p') :
    st'.emit.stackPointer = stackEffect context ins st.emit.stackPointer := by
  have hstack := h.stack_eq
  have hassert' : T.stack.config.assertions = true := by rw [hstack]; exact hassert
  obtain ⟨pre, post, st₁, t, s', q, rfl, hsplit⟩ := h
  have heffect : s'.stackPointer = stackEffect context ins st.emit.stackPointer := by
    have hruns := translateOpcode_stackPointer hsplit.here.runs
    rwa [hstack] at hruns
  have hst₁ : s'.stackPointer = st₁.emit.stackPointer := (EmitState.mk.inj hsplit.emit).1
  rw [← heffect]
  cases t with
  | none =>
      cases post with
      | nil => exact absurd hnext hsplit.not_next_of_last
      | cons next post =>
          obtain ⟨st₂, st₃, p₂, t₂, s₂, q₂, hsplit₂, hat⟩ := exists_splitAt_next hwalked htranslate
          obtain rfl := (hsplit.next_iff_of_none hsplit₂ hclosers).mp hnext
          have ho : next.offset = ins'.offset := by
            have := hat.marker.symm.trans h'.marker
            simpa using this
          obtain ⟨-, rfl, -⟩ := hat.det hwalked htranslate h' ho
          rw [hst₁, (hsplit.scanned'.det hsplit₂.scanned).2]
  | some term =>
      -- control goes to a label
      obtain ⟨b, hb, hquiet, hmarker⟩ := hsplit.next_iff_of_some.mp hnext
      have hends := translateOpcode_endsWith hsplit.here.runs
      have hT : T.jumps = preprocess (pre ++ ins :: post) := (runs_translateBytecode htranslate).1
      obtain ⟨l, rfl⟩ := (hT ▸ hends).exists_label hb
      obtain ⟨⟨ins₂, hins₂, hl, hlabel⟩, rfl⟩ :=
        (quiet_label_iff hwalked htranslate).mp ⟨hquiet, hmarker⟩
      subst hl
      have hfilled := label_filled hwalked htranslate hins₂ hlabel
      have ho : ins₂.offset = ins'.offset := by
        have := hfilled.symm.trans h'.marker
        simpa using this
      rw [h'.empty_of_hasLabel hassert (ho ▸ hlabel)]
      -- and what follows in the text is a label or the end, so that the stack is empty here too
      cases post with
      | nil =>
          obtain ⟨s₁, hrest, hempty⟩ := hsplit.rest
          have hs₁ : s₁ = s' := by
            generalize T.cfg.position = z at hrest
            cases hrest
            rfl
          rw [← hs₁, hempty hassert', ← hstack]
      | cons next post =>
          obtain ⟨st₂, st₃, p₂, t₂, s₂, q₂, hsplit₂, hat⟩ := exists_splitAt_next hwalked htranslate
          have hnext := List.isChain_iff_forall_rel_of_append_cons_cons.mp hclosers rfl
            (hends.isSome_iff.mp rfl)
          rw [hst₁, (hsplit.scanned'.det hsplit₂.scanned).2, hat.empty_of_hasLabel hassert hnext]

/-- The depth along a path that starts after an instruction, by induction on the path. -/
theorem Located.depthAlong_eq (hassert : context.config.assertions = true)
    (hwalked : Walked bytecode) (htranslate : translateBytecode context bytecode = .ok T)
    (hclosers : ClosersLabelled T.jumps bytecode) {os : List ℕ}
    (h : Located context T bytecode ins st p) (hpath : Path T.cfg.blocks p.next os p')
    (h' : Located context T bytecode ins' st' p') :
    st'.emit.stackPointer =
      depthAlong context bytecode os (stackEffect context ins st.emit.stackPointer) := by
  induction os generalizing ins st p with
  | nil =>
      rcases hpath.cases_marker with ⟨-, hquiet⟩ | ⟨_, _, _, hnil, -⟩
      · exact h.stackPointer_next hassert hwalked htranslate hclosers h' ⟨hquiet, _, h'.marker⟩
      · exact absurd hnil (by simp)
  | cons o os ih =>
      rcases hpath.cases_marker with ⟨hnil, -⟩ | ⟨o₁, os₁, p₁, hcons, hquiet, hitem, hrest⟩
      · exact absurd hnil (by simp)
      · obtain ⟨rfl, rfl⟩ := List.cons.inj hcons
        obtain ⟨ins₁, st₁, h₁, rfl⟩ := exists_located_of_marker hwalked htranslate hitem
        rw [depthAlong, instructionAt_eq hwalked h₁.mem, ih h₁ hrest,
          h.stackPointer_next hassert hwalked htranslate hclosers h₁ ⟨hquiet, _, hitem⟩]
        rfl

/-- The depth along a path from the entry of the function. -/
theorem Located.depthAlong_entry (hassert : context.config.assertions = true)
    (hwalked : Walked bytecode) (htranslate : translateBytecode context bytecode = .ok T)
    (hclosers : ClosersLabelled T.jumps bytecode) {os : List ℕ}
    (hpath : Path T.cfg.blocks (.entry, 0) os p') (h' : Located context T bytecode ins' st' p') :
    st'.emit.stackPointer = depthAlong context bytecode os context.variableSpace := by
  cases bytecode with
  | nil => exact absurd h'.mem List.not_mem_nil
  | cons first rest =>
      obtain ⟨st, p, h⟩ := exists_located hwalked htranslate List.mem_cons_self
      have hfirst : st.emit.stackPointer = context.variableSpace := by
        obtain ⟨pre, post, _, _, _, _, heq, hsplit⟩ := h
        obtain ⟨rfl, -, -⟩ := @WalkedFrom.split_unique 0 [] pre rest post first first hwalked heq rfl
        obtain ⟨s₀, hlocal, hscan⟩ := hsplit.scanned
        rw [runs_forM_nil] at hscan
        rw [hscan]
        exact (emitAllocateLocalStructures_stack hlocal).2
      rcases hpath.cases_marker with ⟨rfl, hquiet⟩ | ⟨o, os', p₁, rfl, hquiet, hitem, hrest⟩
      · obtain rfl := (quiet_entry_iff hwalked h).mp ⟨hquiet, _, h'.marker⟩
        have ho : first.offset = ins'.offset := by
          have := h.marker.symm.trans h'.marker
          simpa using this
        obtain ⟨-, rfl, -⟩ := h.det hwalked htranslate h' ho
        exact hfirst
      · obtain rfl := (quiet_entry_iff hwalked h).mp ⟨hquiet, _, hitem⟩
        obtain rfl : first.offset = o := by
          have := h.marker.symm.trans hitem
          simpa using this
        rw [depthAlong, instructionAt_eq hwalked h.mem, ← hfirst]
        exact h.depthAlong_eq hassert hwalked htranslate hclosers hrest h'

/-- **The compile-time stack pointer is the depth on every path** from the entry of the function to
an instruction: the scan translated the instruction with the depth that the stack effects along
the path add up to, whichever path it is, and that depth is within the frame. -/
theorem depthAlong_eq_stackPointer (hassert : context.config.assertions = true)
    (hwalked : Walked bytecode) (htranslate : translateBytecode context bytecode = .ok T)
    (hclosed : bytecode.IsChain fun ins next =>
      ins.bc = .RET ∨ ins.bc = .JMP → (preprocess bytecode).HasLabel next.offset)
    {os : List ℕ} {o : ℕ} (hpath : Path T.cfg.blocks (.entry, 0) os p)
    (hp : itemAt T.cfg.blocks p = some (.marker o)) :
    (∃ ins ∈ bytecode, ins.offset = o) ∧
    (∀ sp, TranslatedAt context bytecode o sp ↔
      sp = depthAlong context bytecode os context.variableSpace) ∧
    (∀ os', Path T.cfg.blocks (.entry, 0) os' p →
      depthAlong context bytecode os' context.variableSpace =
        depthAlong context bytecode os context.variableSpace) ∧
    context.variableSpace ≤ depthAlong context bytecode os context.variableSpace ∧
    depthAlong context bytecode os context.variableSpace ≤ context.totalSpace := by
  have hclosers := closersLabelled_preprocess hwalked htranslate hclosed
  obtain ⟨ins, st, hat, rfl⟩ := exists_located_of_marker hwalked htranslate hp
  have hdepth := hat.depthAlong_entry hassert hwalked htranslate hclosers hpath
  have hbounds : context.variableSpace ≤ st.emit.stackPointer ∧
      st.emit.stackPointer ≤ context.totalSpace := by
    have hstack := hat.stack_eq
    obtain ⟨_, _, _, _, _, _, -, hsplit⟩ := hat
    have hbounds := hsplit.here.bounds (by rw [hstack]; exact hassert)
    rwa [hstack] at hbounds
  rw [← hdepth]
  refine ⟨⟨ins, hat.mem, rfl⟩, fun sp => hat.translatedAt_iff hwalked htranslate, ?_, hbounds⟩
  intro os' hpath'
  exact (hat.depthAlong_entry hassert hwalked htranslate hclosers hpath').symm

end Paths

/-- Once around the loop and to its second instruction, the depth is that of the scan. -/
theorem depthAlong_eq_stackPointer_loop : ∃ T, translateBytecode loopContext loopBytecode = .ok T ∧
    Path T.cfg.blocks (.entry, 0) [0, 2, 4, 5, 0] (.label 0, 2) ∧
    ∀ sp, TranslatedAt loopContext loopBytecode 2 sp ↔
      sp = depthAlong loopContext loopBytecode [0, 2, 4, 5, 0] loopContext.variableSpace := by
  obtain ⟨T, hT, hblocks⟩ := translateBytecode_loop
  obtain ⟨hentry, hlabel⟩ := Prod.mk.inj hblocks
  have hE : ∀ n, itemAt T.cfg.blocks (.entry, n) = loopBlocks.1[n]? := fun n => by
    rw [itemAt, hentry]
    rfl
  have hL : ∀ n, itemAt T.cfg.blocks (.label 0, n) = loopBlocks.2[n]? := fun n => by
    rw [itemAt, hlabel]
    rfl
  have haround : ∀ {os}, Path T.cfg.blocks (.label 0, 0) os (.label 0, 2) →
      Path T.cfg.blocks (.label 0, 0) (0 :: 2 :: 4 :: 5 :: os) (.label 0, 2) := fun h =>
    .marker (hL 0) (.instr (hL 1) (.marker (hL 2) (.instr (hL 3) (.marker (hL 4) (.marker (hL 5)
      (.instr (hL 6) (.instr (hL 7) (.jump (hL 8) List.mem_cons_self h))))))))
  have hpath : Path T.cfg.blocks (.entry, 0) [0, 2, 4, 5, 0] (.label 0, 2) :=
    .instr (hE 0) (.instr (hE 1) (.instr (hE 2) (.instr (hE 3) (.instr (hE 4) (.instr (hE 5)
      (.jump (hE 6) (List.mem_singleton_self _)
        (haround (.marker (hL 0) (.instr (hL 1) (.refl _))))))))))
  exact ⟨T, hT, hpath, (depthAlong_eq_stackPointer rfl loopBytecode_walked hT (by decide) hpath
    (hL 2)).2.1⟩

end Asllvm
