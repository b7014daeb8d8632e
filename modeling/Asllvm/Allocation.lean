import Asllvm.Traces
import Asllvm.StackDepth

/-!
# Allocation

`ALLOC` finds the address to store the new object through below the arguments of the constructor,
and the constructor takes its object above them. A script object is stored before its constructor is
called, through the slot at `GetSpaceNeededForArguments` below the top; an object of a registered
type is stored afterwards, through the slot that the call has left on top.

* `pushedArguments` — the words of the arguments on the stack, each at its own type.
* `ThreadsSlots` — what `ALLOC` does: the constructor gets the object and the arguments, and the
  object is stored through the address below them.

## Main results

* `alloc_threads_slots` — `ALLOC` threads the right slots, of script objects and registered types.
-/

open StateExcept Slots

namespace Asllvm

/-- **What AngelScript promises of a constructor** that `ALLOC` calls for a type: it returns nothing,
its signature is supported, and it takes an object. -/
structure ScriptFunction.ConstructorOf (function : ScriptFunction) (engine : Engine)
    (type : ObjectType) : Prop where
  returned : function.returnType = .primitive .ttVoid
  stack : function.doesReturnOnStack = false
  parameters : ∀ type ∈ function.parameterTypes, type.Supported
  space : function.spaceNeededForArguments = slotDWords function.parameterTypes
  script : type.isScriptObject = true → function.funcType = .asFUNC_SCRIPT ∧
    ∃ objectType, function.objectType = some objectType ∧
      (engine.objectDataType objectType).Supported ∧
      (engine.objectDataType objectType).isPrimitive = false
  registered : type.isScriptObject = false →
    function.Callable ∧ function.sysFuncIntf.callConv.hasObject = true

/-- The request that `ALLOC` starts with: for a script object, or for memory. -/
def allocation (type : ObjectType) (ins : BytecodeInstruction) (mem : Bytes.Mem) : Request :=
  if type.isScriptObject then ⟨.runtime .newScriptObject, [ins.argPWord], mem⟩
  else ⟨.runtime .alloc, [BitVec.ofNat 64 type.size], mem⟩

/-- The arguments of a constructor: the object before its parameters, or behind them. -/
def constructorArguments (type : ObjectType) (function : ScriptFunction) (object : Word)
    (parameters : List Word) : List Word :=
  if type.isScriptObject then object :: parameters else methodArguments function object parameters

/-- A request goes to a constructor. -/
def CallsConstructor (type : ObjectType) (function : ScriptFunction) (callee : Callee) : Prop :=
  if type.isScriptObject then callee = .script (.scriptFunction function.id)
  else ∃ r, callee = .system (nativeTarget function r)

/-- **What `ALLOC` starts from**: the arguments of a constructor on the stack, with an address below
them that is no part of them, in front of a host that hands out an object and leaves the stack of its
caller alone. -/
structure AllocStart (T : Translation) (env : Env) (host : Host) (type : ObjectType)
    (function : ScriptFunction) (ins : BytecodeInstruction) (sp : ℤ) (s : Progress)
    (object target : Word) : Prop where
  constructor : function.ConstructorOf T.stack.engine type
  pushed : T.stack.variableSpace + slotDWords function.parameterTypes + asPtrSize ≤ sp
  needed : sp ≤ T.stack.scriptFunction.scriptData.stackNeeded
  spares : host.Spares (T.stack.byteAddress env.layout sp)
    (4 * (slotDWords function.parameterTypes + asPtrSize))
  address : Bytes.read s.world.mem
    (T.stack.byteAddress env.layout (sp - slotDWords function.parameterTypes)) 8 = target
  apart : target.toNat + 8 ≤ T.stack.byteAddress env.layout sp ∨ T.stack.byteAddress env.layout sp +
    4 * (slotDWords function.parameterTypes + asPtrSize) ≤ target.toNat
  answer : (host (allocation type ins s.world.mem :: s.world.calls)).1 = object
  fresh : object ≠ 0

/-- **`ALLOC` threads the right slots**: the one function it calls is the constructor, with the
object and the arguments on the stack; if that returns, the object has been pushed and has been
stored through the address below the arguments, and nothing else has been written; and the stack
pointer drops by the arguments and that address. -/
structure ThreadsSlots (T : Translation) (env : Env) (host : Host) (type : ObjectType)
    (function : ScriptFunction) (ins : BytecodeInstruction) (sp : ℤ) (ps : List Piece) (s : Progress)
    (object target : Word) : Prop where
  constructed : ∃ request, functionCalls (events env host ps s) = [request] ∧
    CallsConstructor type function request.callee ∧
    request.args = constructorArguments type function object
      (pushedArguments T.stack env.layout s.world.mem sp function.parameterTypes)
  stored : ∀ s', runCode env host ps s = .goes s' → (writesOf (events env host ps s)).Perm
    [(T.stack.byteAddress env.layout (sp + asPtrSize), 8, object), (target.toNat, 8, object)]
  defined : ∀ s', runCode env host ps s ≠ .stuck s'
  stackPointer : ∀ t e e', e.stackPointer = sp → Runs (translateOpcode T.stack T.jumps ins) e t e' →
    e'.stackPointer = sp - (slotDWords function.parameterTypes + asPtrSize)

/-! ### The arguments on the stack -/

section Pushed

variable {T : Translation} {stack : StackFrame} {env : Env} {sp : ℤ} {types : List DataType}
  {layout : FrameLayout} {mem mem' : Bytes.Mem} {n : ℕ}

/-- The address of a slot `n` dwords below another one. -/
theorem byteAddress_sub (hlow : 0 < sp - n) (hhigh : sp ≤ stack.totalSpace) :
    stack.byteAddress layout (sp - n) = stack.byteAddress layout sp + 4 * n := by
  rw [StackFrame.byteAddress, StackFrame.byteAddress, if_neg (by omega), if_neg (by omega)]
  omega

/-- A temporary of eight bytes is in the frame. -/
theorem inFrame_temporary {o : ℤ} (hlow : 2 ≤ o) (hhigh : o ≤ stack.totalSpace) :
    stack.InFrame o 8 :=
  StackFrame.inFrame_storage (by omega) hhigh (by omega)

/-- **The arguments on the stack** only depend on the bytes of their slots. -/
theorem pushedArguments_congr (hsupported : ∀ type ∈ types, type.Supported)
    (hlow : slotDWords types < sp) (hhigh : sp ≤ stack.totalSpace)
    (h : ∀ a, stack.byteAddress layout sp ≤ a →
      a < stack.byteAddress layout sp + 4 * slotDWords types → mem' a = mem a) :
    pushedArguments stack layout mem' sp types = pushedArguments stack layout mem sp types := by
  induction types generalizing sp with
  | nil => rfl
  | cons type types ih =>
      have htype := hsupported type List.mem_cons_self
      obtain ⟨ty, hty⟩ := htype.exists_toLlvmType
      have hsize : ty.storeSize ≤ 4 * type.sizeOnStackDWords := by
        have hstore := storeSize_of_supported htype hty
        split at hstore <;> omega
      rw [slotDWords, total_cons] at hlow h
      have hnext : stack.byteAddress layout (sp - type.sizeOnStackDWords) =
          stack.byteAddress layout sp + 4 * type.sizeOnStackDWords :=
        byteAddress_sub (by omega) hhigh
      rw [pushedArguments, pushedArguments, ih (fun type' h' => hsupported type' (List.mem_cons_of_mem _ h'))
        (by rw [slotDWords]; omega) (by omega)
        (fun a ha ha' => h a (by omega) (by rw [slotDWords] at ha'; omega))]
      have hword : Bytes.read mem' (stack.byteAddress layout sp) ty.storeSize =
          Bytes.read mem (stack.byteAddress layout sp) ty.storeSize :=
        Bytes.read_congr fun i hi => h _ (by omega) (by omega)
      rw [pushedWord, pushedWord, hty]
      dsimp only
      rw [StackFrame.slotWord, StackFrame.slotWord, hword]

/-- The arguments on the stack can be loaded. -/
theorem inFrame_argument {types : List DataType} {tys : List Ty} (hlow : slotDWords types + 2 ≤ sp)
    (hhigh : sp ≤ stack.totalSpace) (k : ℕ) (type : DataType) (ty : Ty) (hk : types[k]? = some type)
    (_ : tys[k]? = some ty) : stack.InFrame (sp - slotOffset types k) ty.storeSize := by
  have hoffset : slotOffset types k + type.sizeOnStackDWords ≤ slotDWords types :=
    offset_add_size_le DataType.sizeOnStackDWords hk
  exact (inFrame_temporary (by omega) (by omega)).mono ty.storeSize_le

end Pushed

/-! ### Where it starts -/

section Start

variable {T : Translation} {env : Env} {host : Host} {type : ObjectType} {function : ScriptFunction}
  {ins : BytecodeInstruction} {sp : ℤ} {s : Progress} {object target : Word} {mem : Bytes.Mem}

namespace AllocStart

theorem low (h : AllocStart T env host type function ins sp s object target) :
    slotDWords function.parameterTypes + 2 ≤ sp := by
  have hpushed := h.pushed
  have hspace := T.stack.variableSpace_nonneg
  rw [asPtrSize] at hpushed
  omega

theorem high (h : AllocStart T env host type function ins sp s object target) :
    sp + asPtrSize ≤ T.stack.totalSpace := by
  have hneeded := h.needed
  rw [FunctionContext.totalSpace_eq, asPtrSize]
  omega

/-- The slot above the arguments, for the object. -/
theorem inFrame_object (h : AllocStart T env host type function ins sp s object target) :
    T.stack.InFrame (sp + asPtrSize) 8 := by
  have hlow := h.low
  exact inFrame_temporary (by omega) h.high

/-- The slot below the arguments, for the address. -/
theorem inFrame_target (h : AllocStart T env host type function ins sp s object target) :
    T.stack.InFrame (sp - slotDWords function.parameterTypes) 8 := by
  have hlow := h.low
  have hhigh := h.high
  exact inFrame_temporary (by omega) (by omega)

/-- The arguments lie below the object, and above the address. -/
theorem addresses (h : AllocStart T env host type function ins sp s object target) :
    T.stack.byteAddress env.layout sp = T.stack.byteAddress env.layout (sp + asPtrSize) + 8 ∧
      T.stack.byteAddress env.layout (sp - slotDWords function.parameterTypes) =
        T.stack.byteAddress env.layout sp + 4 * slotDWords function.parameterTypes := by
  have hlow := h.low
  have hhigh := h.high
  have hobject := @byteAddress_sub T.stack (sp + asPtrSize) env.layout asPtrSize (by omega) hhigh
  rw [Int.add_sub_cancel] at hobject
  exact ⟨hobject, byteAddress_sub (by omega) (by omega)⟩

/-- **A memory with the same stack** has the same arguments and the same address on it. -/
theorem same (h : AllocStart T env host type function ins sp s object target)
    (hmem : ∀ a, T.stack.byteAddress env.layout sp ≤ a → a < T.stack.byteAddress env.layout sp +
      4 * (slotDWords function.parameterTypes + asPtrSize) → mem a = s.world.mem a) :
    pushedArguments T.stack env.layout mem sp function.parameterTypes =
        pushedArguments T.stack env.layout s.world.mem sp function.parameterTypes ∧
      Bytes.read mem (T.stack.byteAddress env.layout (sp - slotDWords function.parameterTypes)) 8 =
        target := by
  have hlow := h.low
  have hhigh := h.high
  obtain ⟨-, haddress⟩ := h.addresses
  rw [asPtrSize] at hmem
  refine ⟨pushedArguments_congr h.constructor.parameters (by omega) (by omega)
    fun a ha ha' => hmem a ha (by omega), ?_⟩
  rw [← h.address]
  exact Bytes.read_congr fun i hi => hmem _ (by omega) (by omega)

end AllocStart

end Start

/-! ### Script objects -/

section Script

variable {stack : StackFrame} {function : ScriptFunction} {ins : BytecodeInstruction}
  {e e' : EmitState} {id : ℤ}

/-- The code of `ALLOC` of a script object. -/
theorem allocScriptObject_code (hfunction : stack.engine.getFunctionById id = some function)
    (h : Runs (allocScriptObject stack ins id) e () e') : ∃ n e₁ e₂, e₁.nextReg = e.nextReg + 2 ∧
      e₁.stackPointer = e.stackPointer + asPtrSize ∧ e₁.out = e.out ++ [
        .instr (.call (some e.nextReg) (.runtime .newScriptObject) [⟨.const ins.argPWord, .pvoid⟩]),
        .instr (.load (e.nextReg + 1) (.ptr .pvoid)
          (stack.slotAddress (e.stackPointer - function.spaceNeededForArguments))),
        .instr (.store .pvoid (.reg e.nextReg) (.reg (e.nextReg + 1))),
        .instr (.store .pvoid (.reg e.nextReg) (stack.slotAddress (e.stackPointer + asPtrSize)))] ∧
      Runs (emitScriptCall stack function) e₁ n e₂ ∧ e'.out = e₂.out := by
  simp only [allocScriptObject, runs_bind, runs_createCall_ptr, runs_dereference,
    StackFrame.runs_currentStackPointer, StackFrame.runs_load, runs_createStore,
    StackFrame.runs_push, StackFrame.runs_popDWords, hfunction] at h
  obtain ⟨_, _, ⟨rfl, rfl⟩, constructor, _, ⟨hconstructor, rfl⟩, _, _, ⟨rfl, rfl⟩, _, _,
    ⟨-, rfl, rfl⟩, _, _, rfl, _, _, ⟨-, rfl⟩, n, u, hcall, rfl⟩ := h
  obtain rfl := Option.some.inj hconstructor
  exact ⟨n, _, u, rfl, rfl, by simp, hcall, rfl⟩

end Script

section ScriptRun

variable {T : Translation} {env : Env} {host : Host} {type : ObjectType} {function : ScriptFunction}
  {ins : BytecodeInstruction} {e e' : EmitState} {s : Progress} {object target : Word} {id : ℤ}

/-- **`ALLOC` of a script object threads the right slots.** -/
theorem allocScriptObject_threads (hact : Activates T env) (hscript : type.isScriptObject = true)
    (h : AllocStart T env host type function ins e.stackPointer s object target)
    (hfunction : T.stack.engine.getFunctionById id = some function) (hout : e.out = [])
    (hruns : Runs (allocScriptObject T.stack ins id) e () e') :
    (∃ request, functionCalls (events env host e'.out s) = [request] ∧
      CallsConstructor type function request.callee ∧
      request.args = constructorArguments type function object
        (pushedArguments T.stack env.layout s.world.mem e.stackPointer function.parameterTypes)) ∧
    writesOf (events env host e'.out s) = [(target.toNat, 8, object),
      (T.stack.byteAddress env.layout (e.stackPointer + asPtrSize), 8, object)] ∧
    ∀ s', runCode env host e'.out s ≠ .stuck s' := by
  obtain ⟨hfunc, objectType, hobject, hsupported, hprim⟩ := h.constructor.script hscript
  obtain ⟨n, e₁, e₂, hreg, hsp, hout₁, hcall, hout'⟩ := allocScriptObject_code hfunction hruns
  have hsize : (T.stack.engine.objectDataType objectType).sizeOnStackDWords = asPtrSize := by
    rw [hsupported.size, if_neg (by simp [hprim])]
  obtain ⟨ty, tys, htys, hout₂⟩ := emitScriptCall_method_code hfunc
    (by rw [h.constructor.returned]; rfl) hobject hprim hsize hcall
  rw [hreg, hsp] at hout₂
  -- the object is allocated
  have hrequest : allocation type ins s.world.mem =
      ⟨.runtime .newScriptObject, [ins.argPWord], s.world.mem⟩ := if_pos hscript
  obtain ⟨mem₁, hmem₁⟩ : ∃ mem₁, host (⟨.runtime .newScriptObject, [ins.argPWord], s.world.mem⟩ ::
      s.world.calls) = (object, mem₁) := ⟨_, Prod.ext (hrequest ▸ h.answer) rfl⟩
  have hspared : ∀ a, T.stack.byteAddress env.layout e.stackPointer ≤ a →
      a < T.stack.byteAddress env.layout e.stackPointer +
        4 * (slotDWords function.parameterTypes + asPtrSize) → mem₁ a = s.world.mem a := by
    intro a ha ha'
    have hkept := h.spares ⟨.runtime .newScriptObject, [ins.argPWord], s.world.mem⟩ s.world.calls a ha
      ha'
    rwa [hmem₁] at hkept
  have hargs : [(⟨.const ins.argPWord, .pvoid⟩ : Value)].map (·.eval env s.regs) = [ins.argPWord] := by
    rw [List.map_singleton, Value.eval, Ty.truncate_ptr, Operand.eval]
  have hallocated : Traced env host s _ _ _ := .call_some hargs hmem₁ e.nextReg
  -- it is stored through the address below the arguments, and pushed
  have haddress := (h.same hspared).2
  have hloaded : Traced env host _ _ _ _ := hallocated.append
    (.load_slot .pvoid hact h.inFrame_target _ mem₁ _ (e.nextReg + 1))
  rw [haddress] at hloaded
  have hstored := hloaded.append (.store_reg .i8 _ mem₁ _ e.nextReg (e.nextReg + 1))
  rw [Function.update_self, Function.update_of_ne (by omega), Function.update_self] at hstored
  have hpushed := hstored.append (.store_slot .i8 hact h.inFrame_object _ _ _ e.nextReg)
  rw [Function.update_of_ne (by omega), Function.update_self] at hpushed
  obtain ⟨mem₃, hmem₃⟩ : ∃ mem₃, Bytes.write (Bytes.write mem₁ target.toNat 8 object)
    (T.stack.byteAddress env.layout (e.stackPointer + asPtrSize)) 8 object = mem₃ := ⟨_, rfl⟩
  rw [hmem₃] at hpushed
  -- the constructor is called
  obtain ⟨habove, -⟩ := h.addresses
  have happart := h.apart
  have hspared₃ : ∀ a, T.stack.byteAddress env.layout e.stackPointer ≤ a →
      a < T.stack.byteAddress env.layout e.stackPointer +
        4 * (slotDWords function.parameterTypes + asPtrSize) → mem₃ a = s.world.mem a := by
    intro a ha ha'
    rw [← hmem₃, Bytes.write_outside (by omega), Bytes.write_outside (by omega), hspared a ha ha']
  obtain ⟨hsame, -⟩ := h.same hspared₃
  have hword : Bytes.read mem₃ (T.stack.byteAddress env.layout (e.stackPointer + asPtrSize)) 8 =
      object := by
    rw [← hmem₃, Bytes.read_write_same]
    exact Ty.truncate_ptr .i8 object
  have hlow := h.low
  have hhigh := h.high
  have hframe : ∀ (k : ℕ) type ty, function.parameterTypes[k]? = some type → tys[k]? = some ty →
      T.stack.InFrame (e.stackPointer + asPtrSize - asPtrSize -
        slotOffset function.parameterTypes k) ty.storeSize := by
    rw [Int.add_sub_cancel]
    exact inFrame_argument hlow (by omega)
  obtain ⟨hevents, hstuck⟩ := methodCallCode_events host (e.nextReg + 2) ty
    (.scriptFunction function.id) hact h.inFrame_object hword h.fresh htys hframe
    (Function.update (Function.update s.regs e.nextReg object) (e.nextReg + 1) target)
    (⟨.runtime .newScriptObject, [ins.argPWord], s.world.mem⟩ :: s.world.calls)
  rw [Int.add_sub_cancel, hsame] at hevents
  have hcode : e'.out = ((([.instr (.call (some e.nextReg) (.runtime .newScriptObject)
        [⟨.const ins.argPWord, .pvoid⟩])] ++ [.instr (.load (e.nextReg + 1) (.ptr .pvoid)
          (T.stack.slotAddress (e.stackPointer - slotDWords function.parameterTypes)))]) ++
      [.instr (.store .pvoid (.reg e.nextReg) (.reg (e.nextReg + 1)))]) ++ [.instr (.store .pvoid
        (.reg e.nextReg) (T.stack.slotAddress (e.stackPointer + asPtrSize)))]) ++
      methodCallCode T.stack (e.nextReg + 2) (e.stackPointer + asPtrSize) ty function.parameterTypes tys
        (.scriptFunction function.id) := by
    rw [hout', hout₂, hout₁, hout, h.constructor.space]
    rfl
  rw [hcode, hpushed.events_eq, hpushed.runCode_eq, hevents]
  refine ⟨⟨_, rfl, ?_, ?_⟩, rfl, hstuck⟩
  · rw [CallsConstructor, if_pos hscript]
  · rw [constructorArguments, if_pos hscript]

end ScriptRun

/-! ### Objects of registered types -/

section Native

variable {T : Translation} {env : Env} {host : Host} {type : ObjectType} {function : ScriptFunction}
  {ins : BytecodeInstruction} {e e' : EmitState} {s : Progress} {object target : Word} {id : ℤ}

/-- The code of `ALLOC` of an object of a registered type that has a constructor. -/
theorem allocNativeObject_code {stack : StackFrame} (hid : id ≠ 0)
    (hfunction : stack.engine.getFunctionById id = some function)
    (h : Runs (allocNativeObject stack type id) e () e') : ∃ e₁ e₂, e₁.nextReg = e.nextReg + 1 ∧
      e₁.stackPointer = e.stackPointer + asPtrSize ∧ e₁.out = e.out ++ [
        .instr (.call (some e.nextReg) (.runtime .alloc) [constantInt .iptr type.size]),
        .instr (.store .pvoid (.reg e.nextReg) (stack.slotAddress (e.stackPointer + asPtrSize)))] ∧
      Runs (emitSystemCall stack function) e₁ () e₂ ∧ e'.out = e₂.out ++ [
        .instr (.load e₂.nextReg (.ptr .pvoid) (stack.slotAddress e₂.stackPointer)),
        .instr (.store .pvoid (.reg e.nextReg) (.reg e₂.nextReg))] := by
  rw [allocNativeObject, runs_bind] at h
  obtain ⟨_, _, hobject, h⟩ := h
  obtain ⟨rfl, rfl⟩ := runs_createCall_ptr.mp hobject
  dsimp only at h
  rw [if_pos hid] at h
  simp only [runs_bind, StackFrame.runs_push, runs_dereference, StackFrame.runs_pop,
    runs_createStore, hfunction] at h
  obtain ⟨_, _, ⟨-, rfl⟩, constructor, _, ⟨hconstructor, rfl⟩, _, u, hcall, _, _, ⟨-, rfl, rfl⟩, rfl⟩ := h
  obtain rfl := Option.some.inj hconstructor
  exact ⟨_, u, rfl, rfl, by simp, hcall, by simp⟩

/-- **`ALLOC` of an object of a registered type threads the right slots.** -/
theorem allocNativeObject_threads (hact : Activates T env) (hnative : type.isScriptObject = false)
    (h : AllocStart T env host type function ins e.stackPointer s object target) (hid : id ≠ 0)
    (hfunction : T.stack.engine.getFunctionById id = some function) (hout : e.out = [])
    (hruns : Runs (allocNativeObject T.stack type id) e () e') :
    (∃ request, functionCalls (events env host e'.out s) = [request] ∧
      CallsConstructor type function request.callee ∧
      request.args = constructorArguments type function object
        (pushedArguments T.stack env.layout s.world.mem e.stackPointer function.parameterTypes)) ∧
    (∀ s', runCode env host e'.out s = .goes s' → writesOf (events env host e'.out s) =
      [(T.stack.byteAddress env.layout (e.stackPointer + asPtrSize), 8, object),
        (target.toNat, 8, object)]) ∧
    ∀ s', runCode env host e'.out s ≠ .stuck s' := by
  have hscript : ¬ type.isScriptObject = true := by simp [hnative]
  obtain ⟨hcallable, hmethod⟩ := h.constructor.registered hnative
  obtain ⟨e₁, e₂, hreg, hsp, hout₁, hcall, hout'⟩ := allocNativeObject_code hid hfunction hruns
  have hlow := h.low
  have hhigh := h.high
  have hpop : Poppable T.stack (pointerSlot :: function.parameterTypes) e₁.stackPointer := by
    refine OnStack.poppable ⟨fun slot hslot => ?_, ?_, by rw [hsp]; exact hhigh⟩
    · rcases List.mem_cons.mp hslot with rfl | hslot
      · exact Nat.succ_pos 1
      · exact (h.constructor.parameters slot hslot).size_pos
    · rw [slotDWords] at hlow
      rw [slotDWords, total_cons, objectOf_sizeOnStackDWords, hsp]
      push_cast
      omega
  obtain ⟨tys, r', htys, hlt, hlt', hout₂⟩ := emitSystemCall_method_code hcallable hmethod
    (by rw [h.constructor.returned]; rfl) h.constructor.stack hpop hcall
  have hsp₂ : e₂.stackPointer = e.stackPointer - slotDWords function.parameterTypes := by
    have hdwords : slotDWords function.systemCallSlots =
        asPtrSize + slotDWords function.parameterTypes := by
      rw [hcallable.slotDWords_eq, ScriptFunction.systemCallDWords, ScriptFunction.objectDWords,
        ScriptFunction.returnDWords, hmethod, h.constructor.stack]
      rfl
    have hclamp := h.pushed
    rw [emitSystemCall_stackPointer hcall, systemCallEffect, hsp, hdwords, max_eq_left (by omega)]
    omega
  rw [hreg, hsp] at hout₂
  rw [hreg] at hlt
  rw [hsp₂] at hout'
  -- the object is allocated and pushed
  have hrequest : allocation type ins s.world.mem =
      ⟨.runtime .alloc, [BitVec.ofNat 64 type.size], s.world.mem⟩ := if_neg hscript
  obtain ⟨mem₁, hmem₁⟩ : ∃ mem₁, host (⟨.runtime .alloc, [BitVec.ofNat 64 type.size], s.world.mem⟩ ::
      s.world.calls) = (object, mem₁) := ⟨_, Prod.ext (hrequest ▸ h.answer) rfl⟩
  have hargs : [constantInt .iptr type.size].map (·.eval env s.regs) =
      [BitVec.ofNat 64 type.size] := by
    rw [List.map_singleton, Value.eval, constantInt, Operand.eval, Ty.truncate_setWidth, Ty.bits,
      BitVec.setWidth_eq, BitVec.setWidth_eq, BitVec.ofInt_natCast]
  have hallocated : Traced env host s _ _ _ := .call_some hargs hmem₁ e.nextReg
  have hpushed := hallocated.append (.store_slot .i8 hact h.inFrame_object _ _ _ e.nextReg)
  rw [Function.update_self] at hpushed
  obtain ⟨mem₂, hmem₂⟩ : ∃ mem₂, Bytes.write mem₁
    (T.stack.byteAddress env.layout (e.stackPointer + asPtrSize)) 8 object = mem₂ := ⟨_, rfl⟩
  rw [hmem₂] at hpushed
  -- the constructor is called
  obtain ⟨habove, -⟩ := h.addresses
  have hspared₂ : ∀ a, T.stack.byteAddress env.layout e.stackPointer ≤ a →
      a < T.stack.byteAddress env.layout e.stackPointer +
        4 * (slotDWords function.parameterTypes + asPtrSize) → mem₂ a = s.world.mem a := by
    intro a ha ha'
    have hkept := h.spares ⟨.runtime .alloc, [BitVec.ofNat 64 type.size], s.world.mem⟩ s.world.calls a
      ha ha'
    rw [hmem₁] at hkept
    rw [← hmem₂, Bytes.write_outside (by omega)]
    exact hkept
  obtain ⟨hsame, -⟩ := h.same hspared₂
  have hword : Bytes.read mem₂ (T.stack.byteAddress env.layout (e.stackPointer + asPtrSize)) 8 =
      object := by
    rw [← hmem₂, Bytes.read_write_same]
    exact Ty.truncate_ptr .i8 object
  have hframe : ∀ (k : ℕ) type ty, function.parameterTypes[k]? = some type → tys[k]? = some ty →
      T.stack.InFrame (e.stackPointer + asPtrSize - asPtrSize -
        slotOffset function.parameterTypes k) ty.storeSize := by
    rw [Int.add_sub_cancel]
    exact inFrame_argument hlow (by omega)
  obtain ⟨es, s₃, request, hcalled, hcalls, hwrites, hcallee, hrequestArgs, hregs, hspared⟩ :=
    nativeMethodCode_traced host (e.nextReg + 1) hact h.inFrame_object hword h.fresh htys hframe
      (Function.update s.regs e.nextReg object)
      (⟨.runtime .alloc, [BitVec.ofNat 64 type.size], s.world.mem⟩ :: s.world.calls)
  rw [Int.add_sub_cancel, hsame] at hrequestArgs
  have hconstructed := hpushed.append hcalled
  obtain ⟨tail, htail⟩ : ∃ tail : List Piece, [.instr (.load e₂.nextReg (.ptr .pvoid) (T.stack.slotAddress
    (e.stackPointer - slotDWords function.parameterTypes)))] ++
      [.instr (.store .pvoid (.reg e.nextReg) (.reg e₂.nextReg))] = tail := ⟨_, rfl⟩
  have hcode : e'.out = (([.instr (.call (some e.nextReg) (.runtime .alloc)
        [constantInt .iptr type.size])] ++ [.instr (.store .pvoid (.reg e.nextReg)
          (T.stack.slotAddress (e.stackPointer + asPtrSize)))]) ++
      nativeMethodCode T.stack function (e.nextReg + 1) (e.stackPointer + asPtrSize) tys) ++
      (contextCheck r' ++ tail) := by
    rw [hout', hout₂, hout₁, hout, ← htail]
    simp only [List.append_assoc, List.nil_append, List.cons_append]
  rw [hcode, hconstructed.events_eq, hconstructed.runCode_eq]
  obtain ⟨hstatus, hleaves | ⟨regs', hregs', hgoes⟩⟩ := contextCheck_events env host r' s₃
  · obtain ⟨state, s', hleaves⟩ := hleaves
    obtain ⟨hrun, hevents⟩ := @events_of_leaves _ _ _ _ _ tail _ hleaves
    rw [hrun, hevents, hstatus]
    refine ⟨⟨request, ?_, ?_, ?_⟩, fun s'' hgoes => CodeResult.noConfusion hgoes,
      fun s'' => CodeResult.noConfusion⟩
    · rw [functionCalls_append, functionCalls_append, hcalls]
      rfl
    · rw [CallsConstructor, if_neg hscript]
      exact hcallee
    · rw [constructorArguments, if_neg hscript]
      exact hrequestArgs
  · -- the constructor has returned, and the object is stored
    obtain ⟨w, hworld⟩ : ∃ w, s₃.world.call host (.runtime .checkExecutionStatus) [] = w := ⟨_, rfl⟩
    rw [hworld] at hgoes
    have haddress : Bytes.read w.mem (T.stack.byteAddress env.layout
        (e.stackPointer - slotDWords function.parameterTypes)) 8 = target := by
      refine (h.same fun a ha ha' => ?_).2
      have hasked := h.spares ⟨.runtime .checkExecutionStatus, [], s₃.world.mem⟩ s₃.world.calls a ha ha'
      rw [← hworld]
      exact hasked.trans ((hspared _ _ h.spares a ha ha').trans (hspared₂ a ha ha'))
    have hloaded : Traced env host _ _ _ _ := hgoes.append (.load_slot .pvoid hact h.inFrame_target
      regs' w.mem w.calls e₂.nextReg)
    rw [haddress] at hloaded
    have hstored := hloaded.append (.store_reg .i8 _ _ _ e.nextReg e₂.nextReg)
    rw [Function.update_self, Function.update_of_ne (by omega), hregs' _ (by omega),
      hregs _ (by omega), Function.update_self] at hstored
    rw [List.append_assoc, htail] at hstored
    rw [hstored.1, hstored.2]
    refine ⟨⟨request, ?_, ?_, ?_⟩, fun s'' _ => ?_, fun s'' => CodeResult.noConfusion⟩
    · rw [functionCalls_append, functionCalls_append, hcalls]
      rfl
    · rw [CallsConstructor, if_neg hscript]
      exact hcallee
    · rw [constructorArguments, if_neg hscript]
      exact hrequestArgs
    · rw [writesOf_append, writesOf_append, hwrites]
      rfl

end Native

/-! ### Every allocation -/

section Threading

variable {context : FunctionContext} {bytecode : List BytecodeInstruction} {ins : BytecodeInstruction}
  {T : Translation} {sp : ℤ} {ps : List Piece} {p q : Position} {env : Env} {host : Host}
  {type : ObjectType} {function : ScriptFunction} {s : Progress} {object target : Word}

/-- **The stack pointer after `ALLOC`**: the arguments and the address are gone. -/
theorem allocEffect_eq {depth : ℤ} (hctor : function.ConstructorOf context.engine type)
    (htype : context.engine.objectTypeAt ins.argPWord = type) (hid : ins.argInt asPtrSize ≠ 0)
    (hfunction : context.engine.getFunctionById (ins.argInt asPtrSize) = some function)
    (hpushed : context.variableSpace + slotDWords function.parameterTypes + asPtrSize ≤ depth) :
    allocEffect context ins depth = depth - (slotDWords function.parameterTypes + asPtrSize) := by
  rw [allocEffect, htype, hfunction]
  dsimp only [Option.elim_some]
  by_cases hscript : type.isScriptObject = true
  · obtain ⟨-, objectType, hobject, hsupported, hprim⟩ := hctor.script hscript
    have hslots : scriptCallSlots context.engine function =
        context.engine.objectDataType objectType :: function.parameterTypes := by
      have hreturns : ¬ function.ReturnsOnStack := fun hreturns =>
        Bool.false_ne_true (hctor.stack.symm.trans hreturns.2)
      rw [scriptCallSlots, if_neg hreturns, hobject]
      rfl
    have hdwords : slotDWords (scriptCallSlots context.engine function) =
        asPtrSize + slotDWords function.parameterTypes := by
      rw [hslots, slotDWords, total_cons, hsupported.size, if_neg (by simp [hprim])]
    rw [if_pos hscript, scriptCallEffect, hdwords]
    push_cast
    omega
  · obtain ⟨hcallable, hmethod⟩ := hctor.registered (by simpa using hscript)
    have hdwords : slotDWords function.systemCallSlots =
        asPtrSize + slotDWords function.parameterTypes := by
      rw [hcallable.slotDWords_eq, ScriptFunction.systemCallDWords, ScriptFunction.objectDWords,
        ScriptFunction.returnDWords, hmethod, hctor.stack]
      rfl
    rw [if_neg hscript, if_pos hid, systemCallEffect, hdwords, max_eq_left (by omega)]
    push_cast
    omega

/-- **`ALLOC` threads the right slots**, of script objects and of objects of registered types. -/
theorem alloc_threads_slots (hcode : CodeOf context T bytecode ins sp ps p q) (hbc : ins.bc = .ALLOC)
    (hact : Activates T env) (htype : T.stack.engine.objectTypeAt ins.argPWord = type)
    (hid : ins.argInt asPtrSize ≠ 0)
    (hfunction : T.stack.engine.getFunctionById (ins.argInt asPtrSize) = some function)
    (h : AllocStart T env host type function ins sp s object target) :
    ThreadsSlots T env host type function ins sp ps s object target := by
  have hdepth : ∀ t e e', e.stackPointer = sp → Runs (translateOpcode T.stack T.jumps ins) e t e' →
      e'.stackPointer = sp - (slotDWords function.parameterTypes + asPtrSize) := by
    rintro t e e' rfl hruns
    rw [translateOpcode_stackPointer hruns, stackEffect, hbc]
    exact allocEffect_eq h.constructor htype hid hfunction h.pushed
  obtain ⟨e, e', rfl, hout, rfl, hruns⟩ := hcode.ordinary (by rw [hbc]; rfl)
  rw [translateOrdinary, hbc] at hruns
  dsimp only at hruns
  rw [translateAlloc, htype] at hruns
  by_cases hscript : type.isScriptObject = true
  · rw [if_pos hscript] at hruns
    obtain ⟨hconstructed, hstored, hdefined⟩ :=
      allocScriptObject_threads hact hscript h hfunction hout hruns
    exact ⟨hconstructed, fun s' _ => hstored ▸ List.Perm.swap _ _ _, hdefined, hdepth⟩
  · rw [if_neg hscript] at hruns
    obtain ⟨hconstructed, hstored, hdefined⟩ :=
      allocNativeObject_threads hact (by simpa using hscript) h hid hfunction hout hruns
    exact ⟨hconstructed, fun s' hgoes => hstored s' hgoes ▸ List.Perm.refl _, hdefined, hdepth⟩

end Threading

/-! ### Two allocations -/

/-- A constructor of a script class, with one parameter. -/
def pointConstructor : ScriptFunction :=
  { ScriptFunction.free 5 (.primitive .ttVoid) [.primitive .ttInt] 0 with
    objectType := some (.bare 0) }

/-- A registered type of twelve bytes. -/
def vectorType : ObjectType := { ObjectType.bare 3 with isScriptObject := false, size := 12 }

/-- A constructor of that type, with one parameter, which takes the object behind it. -/
def vectorConstructor : ScriptFunction :=
  { ScriptFunction.native .ICC_CDECL_OBJLAST false false (.primitive .ttVoid) [.primitive .ttInt] with
    id := 5 }

/-- A function that may construct an object of the type. -/
def allocContext (constructor : ScriptFunction) (type : ObjectType) : FunctionContext where
  engine := { Engine.ofFunctions [constructor] with objectTypeAt := fun _ => type }
  config := ⟨false, true⟩
  scriptFunction :=
    { ScriptFunction.free 1 (.primitive .ttVoid) [] 4 with scriptData := ⟨4, 7, by decide⟩ }

/-- The allocation. -/
def allocAlloc : BytecodeInstruction := ⟨[0, 0, 0, 5], ⟨.ALLOC, 4, 0xFFFF, by decide⟩, 3⟩

/-- An object is made from a number, and stored through a pointer variable. -/
def allocBytecode : List BytecodeInstruction := [pointerPush, pshC4At 1, allocAlloc, retAt 7]

theorem translateBytecode_alloc :
    (∃ T, translateBytecode (allocContext pointConstructor (.bare 0)) allocBytecode = .ok T ∧
      T.stack.parameters = []) ∧
    ∃ T, translateBytecode (allocContext vectorConstructor vectorType) allocBytecode = .ok T ∧
      T.stack.parameters = [] :=
  ⟨exists_ok_of_map (by decide +kernel), exists_ok_of_map (by decide +kernel)⟩

/-- A host that hands out an object, and does nothing else. -/
def Host.allocating : Host
  | [] => (0, fun _ => 0)
  | request :: _ => (4096, request.mem)

theorem int_supported : ∀ type ∈ [DataType.primitive .ttInt], type.Supported :=
  List.forall_mem_singleton.mpr (DataType.primitive_supported (by decide) (by decide))

theorem pointConstructor_constructs :
    pointConstructor.ConstructorOf (allocContext pointConstructor (.bare 0)).engine (.bare 0) where
  returned := rfl
  stack := rfl
  parameters := int_supported
  space := rfl
  script _ := ⟨rfl, .bare 0, rfl, DataType.objectOf_supported 0, rfl⟩
  registered h := absurd h.symm Bool.false_ne_true

theorem vectorConstructor_constructs :
    vectorConstructor.ConstructorOf (allocContext vectorConstructor vectorType).engine vectorType where
  returned := rfl
  stack := rfl
  parameters := int_supported
  space := rfl
  script h := absurd h Bool.false_ne_true
  registered _ := ⟨⟨by decide, int_supported, ⟨.void, rfl⟩, fun h => absurd h Bool.false_ne_true⟩, rfl⟩

/-- The stack of the function: 345, and below it the address 512. -/
def allocMem : Bytes.Mem := Bytes.write (Bytes.write (fun _ => 0) 1044 8 512) 1040 4 345

section Two

variable {constructor : ScriptFunction} {type : ObjectType}

/-- Where the allocation starts. -/
theorem allocStart {T : Translation}
    (hcontext : T.stack.toFunctionContext = allocContext constructor type)
    (hparameters : constructor.parameterTypes = [.primitive .ttInt])
    (hctor : constructor.ConstructorOf (allocContext constructor type).engine type)
    (hle : T.stack.totalSpace ≤ 2 ^ 32) :
    AllocStart T (T.env hle []) .allocating type constructor allocAlloc 7
      ⟨fun _ => 0, allocMem, []⟩ 4096 512 := by
  have htotal : T.stack.totalSpace = 11 := by rw [hcontext]; rfl
  have hdwords : slotDWords constructor.parameterTypes = 1 := by rw [hparameters]; rfl
  have haddress : ∀ o : ℤ, 0 < o → T.stack.byteAddress (T.env hle []).layout o =
      1024 + 4 * (11 - o).toNat := by
    intro o ho
    have hstorage : (T.env hle []).layout.address .storage = 1024 := rfl
    rw [StackFrame.byteAddress, if_neg (by omega), hstorage]
    omega
  refine ⟨?_, ?_, ?_, fun _ _ _ _ _ => rfl, ?_, .inl ?_, ?_, by decide⟩
  · rw [hcontext]
    exact hctor
  · rw [hdwords, hcontext]
    exact Int.le_refl 7
  · rw [hcontext]
    exact Int.le_refl 7
  · have hbelow : allocMem = Bytes.write (Bytes.write (fun _ => 0) 1044 8 512) 1040 4 345 := rfl
    rw [hdwords, haddress _ (by decide), hbelow]
    exact (Bytes.read_write_disjoint (.inr (by decide))).trans Bytes.read_write_same
  · rw [haddress _ (by decide)]
    decide
  · rw [allocation]
    split <;> rfl

/-- The code of the allocation. -/
theorem exists_codeOf_alloc
    (htranslates : ∃ T, translateBytecode (allocContext constructor type) allocBytecode = .ok T ∧
      T.stack.parameters = []) :
    ∃ T ps p q, T.stack.toFunctionContext = allocContext constructor type ∧
      (∀ hle : T.stack.totalSpace ≤ 2 ^ 32, Activates T (T.env hle [])) ∧
      CodeOf (allocContext constructor type) T allocBytecode allocAlloc 7 ps p q := by
  obtain ⟨T, hT, hparameters⟩ := htranslates
  have hwalked : Walked ([pointerPush, pshC4At 1] ++ allocAlloc :: [retAt 7]) := by
    simp [pointerPush, pshC4At, allocAlloc, retAt, WalkedFrom, BytecodeInstruction.next]
  obtain ⟨ps, p, q, hcode⟩ := exists_codeOf_at _ _ hwalked hT
  refine ⟨T, ps, p, q, hcode.stack_eq, fun hle => ?_, hcode⟩
  exact T.activates_env hle [] (by rw [hparameters]; exact fun _ h => absurd h List.not_mem_nil)

end Two

/-- An object of a script class and one of a registered type, in particular. -/
theorem alloc_threads_slots_point :
    (∃ T ps p q env s, Activates T env ∧
      CodeOf (allocContext pointConstructor (.bare 0)) T allocBytecode allocAlloc 7 ps p q ∧
        ThreadsSlots T env .allocating (.bare 0) pointConstructor allocAlloc 7 ps s 4096 512) ∧
    ∃ T ps p q env s, Activates T env ∧
      CodeOf (allocContext vectorConstructor vectorType) T allocBytecode allocAlloc 7 ps p q ∧
        ThreadsSlots T env .allocating vectorType vectorConstructor allocAlloc 7 ps s 4096 512 := by
  constructor
  · obtain ⟨T, ps, p, q, hcontext, hact, hcode⟩ := exists_codeOf_alloc translateBytecode_alloc.1
    have hle : T.stack.totalSpace ≤ 2 ^ 32 := by rw [hcontext]; decide
    exact ⟨T, ps, p, q, _, _, hact hle, hcode, alloc_threads_slots hcode rfl (hact hle)
      (by rw [hcontext]; rfl) (by decide) (by rw [hcontext]; rfl)
      (allocStart hcontext rfl pointConstructor_constructs hle)⟩
  · obtain ⟨T, ps, p, q, hcontext, hact, hcode⟩ := exists_codeOf_alloc translateBytecode_alloc.2
    have hle : T.stack.totalSpace ≤ 2 ^ 32 := by rw [hcontext]; decide
    exact ⟨T, ps, p, q, _, _, hact hle, hcode, alloc_threads_slots hcode rfl (hact hle)
      (by rw [hcontext]; rfl) (by decide) (by rw [hcontext]; rfl)
      (allocStart hcontext rfl vectorConstructor_constructs hle)⟩

end Asllvm
