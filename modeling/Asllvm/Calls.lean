import Asllvm.StackFrame

/-!
# Emitting Calls

`emit_script_call`, `emit_system_call` and what they use. Both take the arguments of a call
off the compile-time stack; `emit_script_call` also serves the VM entry thunk, where it reads
the same arguments from the frame of the AngelScript VM instead.
-/

namespace Asllvm

/-- Dereference a pointer the code never tests: a null one is outside the contract. -/
def dereference {α : Type} : Option α → EmitM α
  | some a => pure a
  | none => throw .invalid

/-- `ModuleBuilder::get_script_function`, of the function with the given id and virtual table
index. -/
def getScriptFunction (config : JitConfig) (id vfTableIdx : ℤ) : EmitM Value := do
  asllvmAssert config (vfTableIdx < 0)
  pure ⟨.scriptFunction id, .pvoid⟩

/-- `get_nonvirtual_match`: the first method of the declaring type with the callee's
declaration. -/
def getNonvirtualMatch (objectType : ObjectType) (callee : ScriptFunction) : Option Method :=
  objectType.methods.find? fun method => method.declaration = callee.declaration

/-- `FunctionBuilder::resolve_virtual_script_function`. -/
def resolveVirtualScriptFunction (config : JitConfig) (scriptObject : Value)
    (callee : ScriptFunction) : EmitM Value := do
  emitCheckNullPointer scriptObject
  let objectType ← dereference callee.objectType
  let isFinal := callee.isFinal || objectType.isNoInherit
  if config.allowDevirtualization && isFinal then
    let resolved := getNonvirtualMatch objectType callee
    asllvmAssert config resolved.isSome
    let method ← dereference resolved
    getScriptFunction config method.id method.vfTableIdx
  else
    createCall .pvoid (.runtime .scriptVtableLookup)
      [scriptObject, ⟨.descriptor callee.id, .pvoid⟩]

/-- `VmEntryCallContext`: the frame of the VM and its two registers. -/
structure VmEntryCallContext where
  vmFramePointer : Value
  valueRegister : Value
  objectRegister : Value
deriving DecidableEq, Repr

/-- The `pop` lambda of `emit_script_call`: the next value of the given type, and the number
of dwords read after it. -/
def popArgument (stack : StackFrame) (entry : Option VmEntryCallContext) (type : DataType)
    (readDWordCount : ℕ) : EmitM (Value × ℕ) := do
  let oldReadDWordCount := readDWordCount
  let objectDWordSize := type.sizeOnStackDWords
  let llvmParameterType ← toLlvmType type
  match entry with
  | some context =>
      let dwordPointer ← createInBoundsGEP context.vmFramePointer
        (constantInt .iptr (-(oldReadDWordCount : ℤ))) 4 (.ptr .i32)
      let value ← createLoad llvmParameterType
        (pointerCast dwordPointer (.ptr llvmParameterType))
      pure (value, readDWordCount + objectDWordSize)
  | none =>
      let value ← stack.pop objectDWordSize llvmParameterType
      pure (value, readDWordCount + objectDWordSize)

/-- The first arguments of a script call: the address to return through, popped off the stack
or one of the two registers of the caller. -/
def returnArguments (stack : StackFrame) (entry : Option VmEntryCallContext)
    (callee : ScriptFunction) (calleeType : List Ty) : EmitM (List Value × ℕ) := do
  if callee.returnType.tokenType ≠ .ttVoid then
    if callee.doesReturnOnStack then
      let (value, readDWordCount) ← popArgument stack entry callee.returnType 0
      pure ([value], readDWordCount)
    else
      let returnType ← elementAt calleeType[0]?
      if callee.returnType.isObjectHandle || callee.returnType.isObject then
        let register := (entry.map (·.objectRegister)).getD objectRegister
        pure ([pointerCast register returnType], 0)
      else if callee.returnType.isPrimitive then
        let register := (entry.map (·.valueRegister)).getD valueRegister
        pure ([pointerCast register returnType], 0)
      else do
        asllvmAssert stack.config false
        pure ([], 0)
  else pure ([], 0)

/-- The object argument of a script call, checked for null right after it is read. -/
def objectArguments (stack : StackFrame) (entry : Option VmEntryCallContext)
    (callee : ScriptFunction) (readDWordCount : ℕ) : EmitM (List Value × ℕ) :=
  match callee.objectType with
  | some objectType => do
      let (object, readDWordCount) ←
        popArgument stack entry (stack.engine.objectDataType objectType) readDWordCount
      emitCheckNullPointer object
      pure ([object], readDWordCount)
  | none => pure ([], readDWordCount)

/-- The declared parameters of a script call, in order. -/
def parameterArguments (stack : StackFrame) (entry : Option VmEntryCallContext) :
    List DataType → ℕ → EmitM (List Value × ℕ)
  | [], readDWordCount => pure ([], readDWordCount)
  | type :: types, readDWordCount => do
      let (value, readDWordCount) ← popArgument stack entry type readDWordCount
      let (values, readDWordCount) ← parameterArguments stack entry types readDWordCount
      pure (value :: values, readDWordCount)

/-- The function value a script call goes to. -/
def resolveCallee (stack : StackFrame) (callee : ScriptFunction) : EmitM Value := do
  if callee.funcType = .asFUNC_VIRTUAL then
    resolveVirtualScriptFunction stack.config (← stack.top .pvoid) callee
  else getScriptFunction stack.config callee.id callee.vfTableIdx

/-- `FunctionBuilder::emit_script_call`; `entry` is there in the VM entry thunk. Returns the
number of dwords read. -/
def emitScriptCall (stack : StackFrame) (callee : ScriptFunction)
    (entry : Option VmEntryCallContext := none) : EmitM ℕ := do
  asllvmAssert stack.config
    (callee.funcType = .asFUNC_VIRTUAL || callee.funcType = .asFUNC_SCRIPT)
  let calleeType ← getScriptFunctionType stack.engine callee
  let resolvedFunction ← resolveCallee stack callee
  let (returned, readDWordCount) ← returnArguments stack entry callee calleeType
  let (object, readDWordCount) ← objectArguments stack entry callee readDWordCount
  let (parameters, readDWordCount) ←
    parameterArguments stack entry callee.parameterTypes readDWordCount
  let vmState ← createCall .vmState (.script resolvedFunction.op)
    (returned ++ object ++ parameters)
  emitCheckVmState vmState
  pure readDWordCount

/-- The variables the argument loop of `emit_system_call` updates. -/
structure SystemCallArguments where
  args : List (Option Value)
  insertIndex : ℕ
  scriptParamIndex : ℕ
  object : Option Value
deriving DecidableEq, Repr

/-- The `pop_param` lambda of `emit_system_call`. -/
def popParam (stack : StackFrame) (function : ScriptFunction) (paramTypes : List Ty)
    (st : SystemCallArguments) : EmitM SystemCallArguments := do
  let paramType ← elementAt paramTypes[st.insertIndex]?
  let dataType ← elementAt function.parameterTypes[st.scriptParamIndex]?
  let value ← stack.pop dataType.sizeOnStackDWords paramType
  pure { st with
    args := st.args.set st.insertIndex (some value)
    insertIndex := st.insertIndex + 1
    scriptParamIndex := st.scriptParamIndex + 1 }

/-- Pop the object pointer into the argument at `index`. -/
def popObject (stack : StackFrame) (paramTypes : List Ty) (index : ℕ)
    (st : SystemCallArguments) : EmitM SystemCallArguments := do
  let object ← stack.pop asPtrSize (← elementAt paramTypes[index]?)
  pure { st with args := st.args.set index (some object), object := some object }

/-- The `pop_sret_pointer` lambda, stored as the first argument. -/
def popSretPointer (stack : StackFrame) (paramTypes : List Ty) (st : SystemCallArguments) :
    EmitM SystemCallArguments := do
  let value ← stack.pop asPtrSize (← elementAt paramTypes[0]?)
  pure { st with args := st.args.set 0 (some value) }

/-- One iteration of the argument loop of `emit_system_call`. -/
def systemCallArgument (stack : StackFrame) (function : ScriptFunction) (paramTypes : List Ty)
    (st : SystemCallArguments) (i : ℕ) : EmitM SystemCallArguments :=
  let intf := function.sysFuncIntf
  match intf.callConv with
  | .ICC_VIRTUAL_THISCALL | .ICC_THISCALL | .ICC_CDECL_OBJFIRST =>
      if intf.hostReturnInMemory then
        if i = 0 then popObject stack paramTypes 1 st
        else if i = 1 then do
          let st ← popSretPointer stack paramTypes st
          pure { st with insertIndex := 2 }
        else popParam stack function paramTypes st
      else if i = 0 then do
        let st ← popObject stack paramTypes 0 st
        pure { st with insertIndex := 1 }
      else popParam stack function paramTypes st
  | .ICC_CDECL_OBJLAST =>
      if i = 0 then popObject stack paramTypes (paramTypes.length - 1) st
      else if intf.hostReturnInMemory && i == 1 then do
        let st ← popSretPointer stack paramTypes st
        pure { st with insertIndex := 1 }
      else popParam stack function paramTypes st
  | .ICC_CDECL => popParam stack function paramTypes st
  | .ICC_OTHER => do
      asllvmAssert stack.config false
      pure st

/-- The native function a system call goes to. -/
def systemCallee (stack : StackFrame) (function : ScriptFunction) (object : Option Value) :
    EmitM Value :=
  let intf := function.sysFuncIntf
  match intf.callConv with
  | .ICC_VIRTUAL_THISCALL => do
      asllvmAssert stack.config object.isSome
      let object ← dereference object
      createCall .pvoid (.runtime .systemVtableLookup) [object, ⟨.const intf.func, .pvoid⟩]
  | _ => pure ⟨.systemFunction function.id, .pvoid⟩

/-- Where `emit_system_call` leaves the result: through the returned address, or in the
register of the return type. -/
def storeSystemResult (function : ScriptFunction) (returnPointer : Option Value)
    (result : Value) : EmitM Unit :=
  match returnPointer with
  | some pointer => createStore result pointer
  | none =>
      if result.ty ≠ .void then
        if function.returnType.isObjectHandle then
          createStore result (pointerCast objectRegister (.ptr result.ty))
        else storeValueRegisterValue result
      else pure ()

/-- The return address of a system call that stores its result through it: popped before the
arguments, when the function returns on the stack but its host does not return in memory. -/
def popReturnPointer (stack : StackFrame) (function : ScriptFunction) (returnType : Ty) :
    EmitM (Option Value) :=
  if function.doesReturnOnStack && !function.sysFuncIntf.hostReturnInMemory then do
    let pointer ← stack.pop asPtrSize (.ptr returnType)
    pure (some pointer)
  else pure none

/-- The argument loop of `emit_system_call`. -/
def systemCallArguments (stack : StackFrame) (function : ScriptFunction)
    (paramTypes : List Ty) : EmitM SystemCallArguments :=
  (List.range paramTypes.length).foldlM (systemCallArgument stack function paramTypes)
    ⟨List.replicate paramTypes.length none, 0, 0, none⟩

/-- The null check of the object of a system call, if there is one. -/
def checkObject : Option Value → EmitM Unit
  | some object => emitCheckNullPointer object
  | none => pure ()

/-- The call of the native function itself, and the check of the context after it. -/
def callSystemFunction (callee : Value) (returnType : Ty) (args : List (Option Value)) :
    EmitM Value := do
  let _ ← createCall .void (.runtime .prepareSystemCall) [callee]
  let args ← args.mapM dereference
  let result ← createCall returnType (.system callee.op) args
  emitCheckContextState
  pure result

/-- The second half of `emit_system_call`: with the arguments popped, the object is checked, the
call is made, and its result is stored. -/
def finishSystemCall (stack : StackFrame) (function : ScriptFunction) (returnType : Ty)
    (returnPointer : Option Value) (st : SystemCallArguments) : EmitM Unit := do
  checkObject st.object
  let callee ← systemCallee stack function st.object
  let result ← callSystemFunction callee returnType st.args
  storeSystemResult function returnPointer result
  stack.uglyHackStackPointerWithinBounds

/-- `FunctionBuilder::emit_system_call`. -/
def emitSystemCall (stack : StackFrame) (function : ScriptFunction) : EmitM Unit := do
  let (returnType, paramTypes) ← getSystemFunctionType function
  let returnPointer ← popReturnPointer stack function returnType
  let st ← systemCallArguments stack function paramTypes
  finishSystemCall stack function returnType returnPointer st

/-- `FunctionBuilder::emit_object_method_call`, of the behaviour with the given id. -/
def emitObjectMethodCall (functionId : ℤ) (object : Value) : EmitM Unit := do
  let _ ← createCall .void (.runtime .callObjectMethod)
    [object, ⟨.descriptor functionId, .pvoid⟩]

end Asllvm
