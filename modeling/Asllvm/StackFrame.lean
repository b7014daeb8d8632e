import Asllvm.Emit

/-!
# Types and the Stack Frame

`Builder::to_llvm_type`, the function types built from it, and `StackFrame`: the storage of a
translated function, as addressed by the offsets of the bytecode.

A stack offset names different things (`AsStackOffset`): at most `0`, a parameter slot, kept
in an alloca of its own; from `1` to `variableSpace`, a local; above that, the temporary
stack. Locals and temporaries share one array of `totalSpace` dwords, indexed downwards.
-/

namespace Asllvm

/-- The LLVM type of a primitive passed by value. -/
def TokenType.toLlvmType : TokenType → Except EmitError Ty
  | .ttVoid => .ok .void
  | .ttBool => .ok .i1
  | .ttInt8 | .ttUInt8 => .ok .i8
  | .ttInt16 | .ttUInt16 => .ok .i16
  | .ttInt | .ttUInt => .ok .i32
  | .ttInt64 | .ttUInt64 => .ok .i64
  | .ttFloat => .ok .f32
  | .ttDouble => .ok .f64
  | .ttOther => .error .assertion

/-- `Builder::to_llvm_type`. Objects, handles and references are pointers to an opaque
struct named by the type id. The cache of struct types is left out: it makes equal ids give
equal types, which naming the struct by its id does too. -/
def toLlvmType (type : DataType) : Except EmitError Ty :=
  if type.isPrimitive then do
    let baseType ← type.tokenType.toLlvmType
    if type.isReference then pure (.ptr baseType) else pure baseType
  else if type.isReference || type.isObjectHandle || type.isObject then
    match type.typeInfo with
    | some typeId => .ok (.ptr (.struct typeId))
    | none => .error .assertion
  else .error .assertion

/-- `engine.GetDataTypeFromTypeId(objectType->GetTypeId())`. -/
def Engine.objectDataType (engine : Engine) (objectType : ObjectType) : DataType :=
  engine.getDataTypeFromTypeId objectType.typeId

/-- The type `get_script_function_type` puts first: the address to return through, or a pointer
to the returned value. -/
def returnedTypes (function : ScriptFunction) : Except EmitError (List Ty) :=
  if function.returnType.tokenType ≠ .ttVoid then do
    let type ← toLlvmType function.returnType
    pure [if function.doesReturnOnStack then type else .ptr type]
  else pure []

/-- The type of the object of a method. -/
def objectTypes (engine : Engine) (function : ScriptFunction) : Except EmitError (List Ty) :=
  match function.objectType with
  | some objectType => do
      let type ← toLlvmType (engine.objectDataType objectType)
      pure [type]
  | none => pure []

/-- The parameter types of `ModuleBuilder::get_script_function_type`; the return type is
always `vm_state`. -/
def getScriptFunctionType (engine : Engine) (function : ScriptFunction) :
    Except EmitError (List Ty) := do
  let returned ← returnedTypes function
  let object ← objectTypes engine function
  let parameters ← function.parameterTypes.mapM toLlvmType
  pure (returned ++ object ++ parameters)

/-- `ModuleBuilder::get_system_function_type`: the return type and the parameter types. -/
def getSystemFunctionType (function : ScriptFunction) : Except EmitError (Ty × List Ty) := do
  let intf := function.sysFuncIntf
  let type ← toLlvmType function.returnType
  let returned := if intf.hostReturnInMemory then [Ty.ptr type] else []
  let returnType := if intf.hostReturnInMemory then .void else type
  let parameters ← function.parameterTypes.mapM toLlvmType
  match intf.callConv with
  | .ICC_VIRTUAL_THISCALL | .ICC_THISCALL | .ICC_CDECL_OBJFIRST =>
      pure (returnType, .pvoid :: (returned ++ parameters))
  | .ICC_CDECL_OBJLAST => pure (returnType, returned ++ parameters ++ [.pvoid])
  | .ICC_CDECL => pure (returnType, returned ++ parameters)
  | .ICC_OTHER => .error .assertion

/-- `FunctionContext`: the engine, the configuration and the function being translated. -/
structure FunctionContext where
  engine : Engine
  config : JitConfig
  scriptFunction : ScriptFunction

/-- `Parameter`: the position of the LLVM argument and the type of the alloca it is stored
in. -/
structure Parameter where
  argumentIndex : ℕ
  ty : Ty
deriving DecidableEq, Repr

/-- `StackFrame` after `setup`: the context and `m_parameters`, by offset. The stack pointer
is part of `EmitState`. -/
structure StackFrame extends FunctionContext where
  parameters : List (ℤ × Parameter)

namespace FunctionContext

/-- `StackFrame::variable_space`. -/
def variableSpace (context : FunctionContext) : ℤ :=
  context.scriptFunction.scriptData.variableSpace

/-- `StackFrame::stack_space`: the temporary stack, with two pointers in reserve. -/
def stackSpace (context : FunctionContext) : ℤ :=
  context.scriptFunction.scriptData.stackNeeded - context.variableSpace + 2 * asPtrSize

/-- `StackFrame::total_space`. -/
def totalSpace (context : FunctionContext) : ℤ := context.variableSpace + context.stackSpace

theorem totalSpace_eq (context : FunctionContext) :
    context.totalSpace = context.scriptFunction.scriptData.stackNeeded + 4 := by
  simp only [totalSpace, stackSpace, asPtrSize]
  omega

theorem variableSpace_nonneg (context : FunctionContext) : 0 ≤ context.variableSpace := by
  simp [variableSpace]

theorem variableSpace_lt_totalSpace (context : FunctionContext) :
    context.variableSpace < context.totalSpace := by
  have h := context.scriptFunction.scriptData.variableSpace_le
  rw [totalSpace_eq]
  simp only [variableSpace]
  omega

end FunctionContext

namespace StackFrame

/-- `current_stack_pointer`. -/
def currentStackPointer : EmitM ℤ := do return (← get).stackPointer

/-- `empty_stack`. -/
def emptyStack (stack : StackFrame) : EmitM Bool := do
  return (← currentStackPointer) = stack.variableSpace

/-- `ugly_hack_stack_pointer_within_bounds`. -/
def uglyHackStackPointerWithinBounds (stack : StackFrame) : EmitM Unit :=
  modify fun s => { s with stackPointer := max s.stackPointer stack.variableSpace }

/-- `check_stack_pointer_bounds`. -/
def checkStackPointerBounds (stack : StackFrame) : EmitM Unit := do
  asllvmAssert stack.config (stack.variableSpace ≤ (← currentStackPointer))
  asllvmAssert stack.config ((← currentStackPointer) ≤ stack.totalSpace)

/-- `pointer_to(offset)`: the alloca of a parameter, or an element of `m_storage`. -/
def pointerTo (stack : StackFrame) (offset : ℤ) : EmitM Value :=
  if offset ≤ 0 then do
    let parameter ← atOrThrow (stack.parameters.lookup offset)
    pure ⟨.frame (.parameter offset) 0, .ptr parameter.ty⟩
  else do
    let realOffset := stack.totalSpace - offset
    asllvmAssert stack.config (0 ≤ realOffset)
    asllvmAssert stack.config (realOffset ≤ stack.totalSpace)
    pure ⟨.frame .storage (4 * realOffset), .ptr .i32⟩

/-- `pointer_to(offset, pointee_type)`. -/
def pointerToAs (stack : StackFrame) (offset : ℤ) (pointeeType : Ty) : EmitM Value := do
  let pointer ← stack.pointerTo offset
  pure (pointerCast pointer (.ptr pointeeType))

/-- `load`. -/
def load (stack : StackFrame) (offset : ℤ) (type : Ty) : EmitM Value := do
  createLoad type (← stack.pointerToAs offset type)

/-- `store`. -/
def store (stack : StackFrame) (offset : ℤ) (value : Value) : EmitM Unit := do
  createStore value (← stack.pointerToAs offset value.ty)

/-- Add to `m_stack_pointer`. -/
def moveStackPointer (dwords : ℤ) : EmitM Unit :=
  modify fun s => { s with stackPointer := s.stackPointer + dwords }

/-- `push`. -/
def push (stack : StackFrame) (value : Value) (dwords : ℕ) : EmitM Unit := do
  moveStackPointer dwords
  stack.store (← currentStackPointer) value

/-- `pop(dwords)`. -/
def popDWords (dwords : ℕ) : EmitM Unit := moveStackPointer (-dwords)

/-- `pop(dwords, type)`. -/
def pop (stack : StackFrame) (dwords : ℕ) (type : Ty) : EmitM Value := do
  let value ← stack.load (← currentStackPointer) type
  popDWords dwords
  pure value

/-- `top`. -/
def top (stack : StackFrame) (type : Ty) : EmitM Value := do
  stack.load (← currentStackPointer) type

/-- `storage_alloca`. -/
def storageAlloca : Value := ⟨.frame .storage 0, .ptr .i32⟩

end StackFrame

/-- The running state of `allocate_parameter_storage`. -/
structure ParameterStorage where
  stackOffset : ℤ
  argumentIt : ℕ
  parameters : List (ℤ × Parameter)
deriving DecidableEq, Repr

/-- The `allocate_parameter` lambda: an alloca at the next free offset, holding the next
argument. `argumentTypes` are the types of the LLVM function's arguments. -/
def allocateParameter (config : JitConfig) (argumentTypes : List Ty) (st : ParameterStorage)
    (dataType : DataType) : EmitM ParameterStorage := do
  let ty ← toLlvmType dataType
  emitInstr (.alloca (.parameter st.stackOffset) ty.storeSize)
  let success := (st.parameters.lookup st.stackOffset).isNone
  asllvmAssert config success
  let argumentType ← elementAt argumentTypes[st.argumentIt]?
  createStore ⟨.arg st.argumentIt, argumentType⟩
    ⟨.frame (.parameter st.stackOffset) 0, .ptr ty⟩
  pure {
    stackOffset := st.stackOffset - dataType.sizeOnStackDWords
    argumentIt := st.argumentIt + 1
    parameters :=
      if success then (st.stackOffset, ⟨st.argumentIt, ty⟩) :: st.parameters
      else st.parameters }

/-- The address to return through takes a slot if it is on the stack; a value returned through a
pointer takes an argument only. -/
def allocateReturned (config : JitConfig) (argumentTypes : List Ty) (function : ScriptFunction)
    (st : ParameterStorage) : EmitM ParameterStorage :=
  if function.returnType.tokenType ≠ .ttVoid then
    if function.doesReturnOnStack then
      allocateParameter config argumentTypes st function.returnType
    else pure { st with argumentIt := st.argumentIt + 1 }
  else pure st

/-- `StackFrame::allocate_parameter_storage`: the returned address, the object, then the
parameters. -/
def allocateParameterStorage (context : FunctionContext) : EmitM (List (ℤ × Parameter)) := do
  let function := context.scriptFunction
  let argumentTypes ← getScriptFunctionType context.engine function
  let st ← allocateReturned context.config argumentTypes function ⟨0, 0, []⟩
  let st ← (function.objectType.map context.engine.objectDataType).toList.foldlM
    (allocateParameter context.config argumentTypes) st
  let st ← function.parameterTypes.foldlM (allocateParameter context.config argumentTypes) st
  pure st.parameters

/-- `FunctionBuilder::emit_allocate_local_structures` with `StackFrame::setup`. -/
def emitAllocateLocalStructures (context : FunctionContext) : EmitM StackFrame := do
  emitInstr (.alloca .valueRegister 8)
  emitInstr (.alloca .objectRegister 8)
  emitInstr (.alloca .storage (4 * context.totalSpace.toNat))
  let parameters ← allocateParameterStorage context
  modify fun s => { s with stackPointer := context.variableSpace }
  createStore (constantInt .i64 0) valueRegister
  createStore ⟨.const 0, .pvoid⟩ objectRegister
  emitInstr (.memset StackFrame.storageAlloca.op 0 (4 * context.totalSpace.toNat))
  pure { context with parameters := parameters }

end Asllvm
