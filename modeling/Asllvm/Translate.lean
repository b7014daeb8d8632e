import Asllvm.Bytecode
import Asllvm.Calls

/-!
# Translating One Instruction

The switch of `translate_instruction`. Opcodes that only compute are translated by
`translateOrdinary`; the ones that end a basic block (`RET` and the jumps) also yield the
terminator, which the source creates last in each of their cases (`translateOpcode`). The
opcodes the source calls unimplemented, deprecated or unrecognized all fail the same
assertion and otherwise emit nothing.
-/

namespace Asllvm

/-- `m_jump_map` and `m_switch_map`. -/
structure JumpTables where
  jumpMap : ℤ → Option BlockId
  switchMap : ℕ → Option (List BlockId)

/-! ### Emission helpers -/

/-- Whether a type is one of the two 64-bit types `emit_cast` tests for. -/
def Ty.is64 (type : Ty) : Bool := type = .i64 || type = .f64

/-- `emit_cast`: the source is the second operand when exactly one of the types has 64
bits. -/
def emitCast (stack : StackFrame) (ins : BytecodeInstruction) (op : CastOp)
    (sourceType destinationType : Ty) : EmitM Unit := do
  let stackOffset :=
    if sourceType.is64 != destinationType.is64 then ins.argSWord1 else ins.argSWord0
  let converted ← createCast op (← stack.load stackOffset sourceType) destinationType
  stack.store ins.argSWord0 converted

/-- `emit_binop(instruction, op, lhs, rhs)`. -/
def emitBinopOf (stack : StackFrame) (ins : BytecodeInstruction) (op : BinOp)
    (lhs rhs : Value) : EmitM Unit := do
  stack.store ins.argSWord0 (← createBinOp op lhs rhs)

/-- `emit_binop(instruction, op, rhs)`: the left operand is the second variable. -/
def emitBinopWith (stack : StackFrame) (ins : BytecodeInstruction) (op : BinOp)
    (rhs : Value) : EmitM Unit := do
  emitBinopOf stack ins op (← stack.load ins.argSWord1 rhs.ty) rhs

/-- `emit_binop(instruction, op, type)`: both operands are variables of the same type. -/
def emitBinop (stack : StackFrame) (ins : BytecodeInstruction) (op : BinOp) (type : Ty) :
    EmitM Unit := do
  emitBinopWith stack ins op (← stack.load ins.argSWord2 type)

/-- `emit_neg`: subtract from zero, which is all zero bits for every type. -/
def emitNeg (stack : StackFrame) (ins : BytecodeInstruction) (type : Ty) : EmitM Unit := do
  let rhs ← stack.load ins.argSWord0 type
  let op := if type.isFloatingPoint then BinOp.fsub else BinOp.sub
  stack.store ins.argSWord0 (← createBinOp op ⟨.const 0, type⟩ rhs)

/-- `emit_bit_not`. -/
def emitBitNot (stack : StackFrame) (ins : BytecodeInstruction) (type : Ty) : EmitM Unit := do
  let rhs ← stack.load ins.argSWord0 type
  stack.store ins.argSWord0 (← createBinOp .xor (constantInt type (-1)) rhs)

/-- `emit_condition`: the register becomes the truth value of a test of its low dword. -/
def emitCondition (pred : Pred) : EmitM Unit := do
  let lhs ← loadValueRegisterValue .i32
  let result ← createICmp pred lhs (constantInt .i32 0)
  storeValueRegisterValue (← createCast .zext result .i64)

/-- The constant `1` or `-1` of a type, as `emit_increment` builds it. -/
def incrementConstant (type : Ty) (negative : Bool) : Value :=
  match type, negative with
  | .f32, false => ⟨.const 0x3F800000, .f32⟩
  | .f32, true => ⟨.const 0xBF800000, .f32⟩
  | .f64, false => ⟨.const 0x3FF0000000000000, .f64⟩
  | .f64, true => ⟨.const 0xBFF0000000000000, .f64⟩
  | type, false => constantInt type 1
  | type, true => constantInt type (-1)

/-- `emit_increment`, by `1` or (`negative`) by `-1`, of the value the register points to. -/
def emitIncrement (type : Ty) (negative : Bool) : EmitM Unit := do
  let op := if type.isFloatingPoint then BinOp.fadd else BinOp.add
  let valuePointer ← loadValueRegisterValue (.ptr type)
  let value ← createLoad type valuePointer
  createStore (← createBinOp op value (incrementConstant type negative)) valuePointer

/-- The two comparisons of `emit_compare`, for floating-point, signed and unsigned operands. -/
def createOrder (lhs rhs : Value) (isSigned : Bool) : EmitM (Value × Value) :=
  if lhs.ty.isFloatingPoint then do
    let lowerThan ← createFCmp .olt lhs rhs
    let greaterThan ← createFCmp .ogt lhs rhs
    pure (lowerThan, greaterThan)
  else do
    let lowerThan ← createICmp (if isSigned then .slt else .ult) lhs rhs
    let greaterThan ← createICmp (if isSigned then .sgt else .ugt) lhs rhs
    pure (lowerThan, greaterThan)

/-- `emit_compare`: `-1`, `0` or `1` into the low dword of the value register. -/
def emitCompare (config : JitConfig) (lhs rhs : Value) (isSigned : Bool := true) :
    EmitM Unit := do
  asllvmAssert config (lhs.ty = rhs.ty)
  let (lowerThan, greaterThan) ← createOrder lhs rhs isSigned
  let ltOrEq ← createSelect lowerThan (constantInt .i32 (-1)) (constantInt .i32 0)
  let cmp ← createSelect greaterThan (constantInt .i32 1) ltOrEq
  storeValueRegisterValue cmp

/-- The comparison of two variables of the same type. -/
def compareVariables (stack : StackFrame) (ins : BytecodeInstruction) (type : Ty)
    (isSigned : Bool := true) : EmitM Unit := do
  let lhs ← stack.load ins.argSWord0 type
  let rhs ← stack.load ins.argSWord1 type
  emitCompare stack.config lhs rhs isSigned

/-- `CpyVtoV4` and `CpyVtoV8`. -/
def copyVariable (stack : StackFrame) (ins : BytecodeInstruction) (type : Ty) :
    EmitM Unit := do
  stack.store ins.argSWord0 (← stack.load ins.argSWord1 type)

/-- `IncVi` and `DecVi`. -/
def incrementVariable (stack : StackFrame) (ins : BytecodeInstruction) (op : BinOp) :
    EmitM Unit := do
  let value ← stack.load ins.argSWord0 .i32
  stack.store ins.argSWord0 (← createBinOp op value (constantInt .i32 1))

/-- `WRTV1` to `WRTV8`: write a variable through the address in the value register. -/
def writeThroughRegister (stack : StackFrame) (ins : BytecodeInstruction) (type : Ty) :
    EmitM Unit := do
  let value ← stack.load ins.argSWord0 type
  createStore value (← loadValueRegisterValue (.ptr type))

/-- `RDR1` and `RDR2`: read through the address in the value register, extended to a
dword. -/
def readNarrowThroughRegister (stack : StackFrame) (ins : BytecodeInstruction) (type : Ty) :
    EmitM Unit := do
  let sourceWord ← createLoad type (← loadValueRegisterValue (.ptr type))
  stack.store ins.argSWord0 (← createCast .zext sourceWord .i32)

/-- `RDR4` and `RDR8`. -/
def readThroughRegister (stack : StackFrame) (ins : BytecodeInstruction) (type : Ty) :
    EmitM Unit := do
  stack.store ins.argSWord0 (← createLoad type (← loadValueRegisterValue (.ptr type)))

/-- The address of the variable whose index was pushed on the stack: `total_space() - index`
elements into `m_storage`. -/
def variableAddress (stack : StackFrame) (index : Value) (type : Ty) : EmitM Value := do
  let element ← createBinOp .sub (constantInt index.ty stack.totalSpace) index
  createInBoundsGEP StackFrame.storageAlloca element 4 type

/-! ### Objects -/

/-- `asBC_ALLOC` of a script object: the object is stored through the address below the
arguments, and its constructor is called on it. -/
def allocScriptObject (stack : StackFrame) (ins : BytecodeInstruction) (constructorId : ℤ) :
    EmitM Unit := do
  let object ← createCall .pvoid (.runtime .newScriptObject) [⟨.const ins.argPWord, .pvoid⟩]
  let constructor ← dereference (stack.engine.getFunctionById constructorId)
  let targetPointer ← stack.load
    ((← StackFrame.currentStackPointer) - constructor.spaceNeededForArguments) (.ptr .pvoid)
  createStore object targetPointer
  stack.push object asPtrSize
  let _ ← emitScriptCall stack constructor
  StackFrame.popDWords asPtrSize

/-- `asBC_ALLOC` of a native object: its constructor is called, if it has one, and the object is
stored through the address left on the stack. -/
def allocNativeObject (stack : StackFrame) (type : ObjectType) (constructorId : ℤ) :
    EmitM Unit := do
  let object ← createCall .pvoid (.runtime .alloc) [constantInt .iptr type.size]
  if constructorId ≠ 0 then
    stack.push object asPtrSize
    emitSystemCall stack (← dereference (stack.engine.getFunctionById constructorId))
  let targetAddress ← stack.pop asPtrSize (.ptr .pvoid)
  createStore object targetAddress

/-- `asBC_ALLOC`. -/
def translateAlloc (stack : StackFrame) (ins : BytecodeInstruction) : EmitM Unit :=
  let type := stack.engine.objectTypeAt ins.argPWord
  let constructorId := ins.argInt asPtrSize
  if type.isScriptObject then allocScriptObject stack ins constructorId
  else allocNativeObject stack type constructorId

/-- `asBC_FREE`. -/
def translateFree (stack : StackFrame) (ins : BytecodeInstruction) : EmitM Unit := do
  let objectType := stack.engine.objectTypeAt ins.argPWord
  let beh := objectType.beh
  let variablePointer ← stack.pointerToAs ins.argSWord0 .pvoid
  let objectPointer ← createLoad .pvoid variablePointer
  if objectType.isRef then
    asllvmAssert stack.config (objectType.isNoCount || beh.release != 0)
    if beh.release ≠ 0 then emitObjectMethodCall beh.release objectPointer
  else
    if beh.destruct ≠ 0 then emitObjectMethodCall beh.destruct objectPointer
    let _ ← createCall .void (.runtime .free) [objectPointer]

/-- `asBC_GETOBJ`. -/
def translateGetObj (stack : StackFrame) (ins : BytecodeInstruction) : EmitM Unit := do
  let offsetPointer ← stack.pointerToAs
    ((← StackFrame.currentStackPointer) - ins.argWord0.toNat) .iptr
  let offset ← createLoad .iptr offsetPointer
  let variablePointer ← variableAddress stack offset (.ptr .iptr)
  let variableValue ← createLoad .iptr variablePointer
  createStore variableValue offsetPointer
  createStore (constantInt .iptr 0) variablePointer

/-- `asBC_GETOBJREF`. -/
def translateGetObjRef (stack : StackFrame) (ins : BytecodeInstruction) : EmitM Unit := do
  let pointer ← stack.pointerToAs
    ((← StackFrame.currentStackPointer) - ins.argWord0.toNat) .iptr
  let index ← createLoad .iptr pointer
  let address ← variableAddress stack index (.ptr (.ptr .iptr))
  let variableValue ← createLoad (.ptr .iptr) address
  createStore variableValue (pointerCast pointer (.ptr (.ptr .iptr)))

/-- `asBC_GETREF`. -/
def translateGetRef (stack : StackFrame) (ins : BytecodeInstruction) : EmitM Unit := do
  let pointer ← stack.pointerToAs
    ((← StackFrame.currentStackPointer) - ins.argWord0.toNat) (.ptr .i32)
  let index ← createLoad .i32 (pointerCast pointer (.ptr .i32))
  let address ← variableAddress stack index (.ptr .i32)
  createStore address (pointerCast pointer (.ptr (.ptr .i32)))

/-- The `addref` call of `asBC_REFCPY` and `asBC_RefCpyV`. -/
def emitAddRef (objectType : ObjectType) (object : Value) : EmitM Unit := do
  let _ ← createCall .void (.runtime .callObjectMethod)
    [object, ⟨.descriptor objectType.beh.addref, .pvoid⟩]

/-- `asBC_REFCPY`. -/
def translateRefCpy (stack : StackFrame) (ins : BytecodeInstruction) : EmitM Unit := do
  let objectType := stack.engine.objectTypeAt ins.argPWord
  let destination ← stack.pop asPtrSize (.ptr .pvoid)
  let reference ← stack.top .pvoid
  if !objectType.isNoCount && objectType.beh.addref != 0 then
    emitAddRef objectType reference
  createStore reference destination

/-- `asBC_RefCpyV`. -/
def translateRefCpyV (stack : StackFrame) (ins : BytecodeInstruction) : EmitM Unit := do
  let objectType := stack.engine.objectTypeAt ins.argPWord
  let destination ← stack.pointerToAs ins.argSWord0 .pvoid
  let source ← stack.top .pvoid
  if !objectType.isNoCount then
    emitAddRef objectType source
  createStore source destination

/-! ### The switch -/

/-- The cases of `translate_instruction` that emit no terminator. -/
def translateOrdinary (stack : StackFrame) (ins : BytecodeInstruction) : EmitM Unit :=
  match ins.bc with
  | .PopPtr => StackFrame.popDWords asPtrSize
  | .PshGPtr => do stack.push (← loadGlobal ins.argPWord .iptr) asPtrSize
  | .PshC4 => stack.push (constantInt .i32 ins.argDWord.toInt) 1
  | .PshV4 => do stack.push (← stack.load ins.argSWord0 .i32) 1
  | .PSF => do stack.push (← stack.pointerToAs ins.argSWord0 .iptr) asPtrSize
  | .NOT => do
      let source ← stack.load ins.argSWord0 .i1
      stack.store ins.argSWord0
        (← createSelect source (constantInt .i32 0) (constantInt .i32 1))
  | .PshG4 => do stack.push (← loadGlobal ins.argPWord .i32) 1
  | .CALL | .CALLINTF => do
      let _ ← emitScriptCall stack (← dereference (stack.engine.getFunctionById ins.argInt))
  | .TZ => emitCondition .eq
  | .TNZ => emitCondition .ne
  | .TS => emitCondition .slt
  | .TNS => emitCondition .sge
  | .TP => emitCondition .sgt
  | .TNP => emitCondition .sle
  | .NEGi => emitNeg stack ins .i32
  | .NEGf => emitNeg stack ins .f32
  | .NEGd => emitNeg stack ins .f64
  | .NEGi64 => emitNeg stack ins .i64
  | .INCi16 => emitIncrement .i16 false
  | .INCi8 => emitIncrement .i8 false
  | .DECi16 => emitIncrement .i16 true
  | .DECi8 => emitIncrement .i8 true
  | .INCi => emitIncrement .i32 false
  | .DECi => emitIncrement .i32 true
  | .INCf => emitIncrement .f32 false
  | .DECf => emitIncrement .f32 true
  | .INCd => emitIncrement .f64 false
  | .DECd => emitIncrement .f64 true
  | .INCi64 => emitIncrement .i64 false
  | .DECi64 => emitIncrement .i64 true
  | .IncVi => incrementVariable stack ins .add
  | .DecVi => incrementVariable stack ins .sub
  | .BNOT => emitBitNot stack ins .i32
  | .BNOT64 => emitBitNot stack ins .i64
  | .BAND => emitBinop stack ins .and .i32
  | .BOR => emitBinop stack ins .or .i32
  | .BXOR => emitBinop stack ins .xor .i32
  | .BSLL => emitBinop stack ins .shl .i32
  | .BSRL => emitBinop stack ins .lshr .i32
  | .BSRA => emitBinop stack ins .ashr .i32
  | .PshC8 => stack.push (constantInt .i64 ins.argQWord.toInt) 2
  | .PshVPtr => do stack.push (← stack.load ins.argSWord0 .iptr) asPtrSize
  | .RDSPtr => do
      let address ← stack.top (.ptr .pvoid)
      let value ← createLoad .pvoid address
      emitCheckNullPointer value
      stack.store (← StackFrame.currentStackPointer) value
  | .CMPd => compareVariables stack ins .f64
  | .CMPu => compareVariables stack ins .i32 false
  | .CMPf => compareVariables stack ins .f32
  | .CMPi => compareVariables stack ins .i32
  | .CMPIi => do
      emitCompare stack.config (← stack.load ins.argSWord0 .i32) (constantInt .i32 ins.argInt)
  | .CMPIf => do
      -- `ConstantInt::get` is given a floating-point type
      let _ ← stack.load ins.argSWord0 .f32
      throw .invalid
  | .CMPIu => do
      emitCompare stack.config (← stack.load ins.argSWord0 .i32)
        (constantInt .i32 ins.argInt) false
  | .PopRPtr => do storeValueRegisterValue (← stack.pop asPtrSize .iptr)
  | .PshRPtr => do stack.push (← loadValueRegisterValue .iptr) asPtrSize
  | .CALLSYS | .Thiscall1 => do
      let function := stack.engine.getFunctionById ins.argInt
      asllvmAssert stack.config function.isSome
      emitSystemCall stack (← dereference function)
  | .SUSPEND => pure ()
  | .ALLOC => translateAlloc stack ins
  | .FREE => translateFree stack ins
  | .LOADOBJ => do
      let pointerToObject ← stack.load ins.argSWord0 .pvoid
      createStore pointerToObject objectRegister
      stack.store ins.argSWord0 ⟨.const 0, .pvoid⟩
  | .STOREOBJ => do
      stack.store ins.argSWord0 (← createLoad .pvoid objectRegister)
      createStore ⟨.const 0, .pvoid⟩ objectRegister
  | .GETOBJ => translateGetObj stack ins
  | .REFCPY => translateRefCpy stack ins
  | .CHKREF => do emitCheckNullPointer (← stack.top .pvoid)
  | .GETOBJREF => translateGetObjRef stack ins
  | .GETREF => translateGetRef stack ins
  | .OBJTYPE => stack.push ⟨.const ins.argPWord, .iptr⟩ asPtrSize
  | .SetV1 | .SetV2 | .SetV4 => stack.store ins.argSWord0 (constantInt .i32 ins.argDWord.toInt)
  | .SetV8 => stack.store ins.argSWord0 (constantInt .i64 ins.argQWord.toInt)
  | .ADDSi => do
      let stackPointer ← stack.pointerToAs (← StackFrame.currentStackPointer) .iptr
      let originalValue ← createLoad .iptr stackPointer
      let incrementedValue ← createBinOp .add originalValue (constantInt .iptr ins.argSWord0)
      createStore incrementedValue stackPointer
  | .CpyVtoV4 => copyVariable stack ins .i32
  | .CpyVtoV8 => copyVariable stack ins .i64
  | .CpyVtoR4 => do storeValueRegisterValue (← stack.load ins.argSWord0 .i32)
  | .CpyVtoR8 => do storeValueRegisterValue (← stack.load ins.argSWord0 .i64)
  | .CpyVtoG4 => do
      createStore (← stack.load ins.argSWord0 .i32) ⟨.const ins.argPWord, .ptr .i32⟩
  | .CpyRtoV4 => do stack.store ins.argSWord0 (← loadValueRegisterValue .i32)
  | .CpyRtoV8 => do stack.store ins.argSWord0 (← loadValueRegisterValue .i64)
  | .CpyGtoV4 => do stack.store ins.argSWord0 (← loadGlobal ins.argPWord .i32)
  | .WRTV1 => writeThroughRegister stack ins .i8
  | .WRTV2 => writeThroughRegister stack ins .i16
  | .WRTV4 => writeThroughRegister stack ins .i32
  | .WRTV8 => writeThroughRegister stack ins .i64
  | .RDR1 => readNarrowThroughRegister stack ins .i8
  | .RDR2 => readNarrowThroughRegister stack ins .i16
  | .RDR4 => readThroughRegister stack ins .i32
  | .RDR8 => readThroughRegister stack ins .i64
  | .LDG => storeValueRegisterValue ⟨.const ins.argPWord, .pvoid⟩
  | .LDV => do storeValueRegisterValue (← stack.pointerToAs ins.argSWord0 .pvoid)
  | .PGA => stack.push ⟨.const ins.argPWord, .i64⟩ asPtrSize
  | .VAR => stack.push (constantInt .i64 ins.argSWord0) asPtrSize
  | .iTOf => emitCast stack ins .sitofp .i32 .f32
  | .fTOi => emitCast stack ins .fptosi .f32 .i32
  | .uTOf => emitCast stack ins .uitofp .i32 .f32
  | .fTOu => emitCast stack ins .fptoui .f32 .i32
  | .sbTOi => emitCast stack ins .sext .i8 .i32
  | .swTOi => emitCast stack ins .sext .i16 .i32
  | .ubTOi => emitCast stack ins .zext .i8 .i32
  | .uwTOi => emitCast stack ins .zext .i16 .i32
  | .dTOi => emitCast stack ins .fptosi .f64 .i32
  | .dTOu => emitCast stack ins .fptoui .f64 .i32
  | .dTOf => emitCast stack ins .fptrunc .f64 .f32
  | .iTOd => emitCast stack ins .sitofp .i32 .f64
  | .uTOd => emitCast stack ins .uitofp .i32 .f64
  | .fTOd => emitCast stack ins .fpext .f32 .f64
  | .ADDi => emitBinop stack ins .add .i32
  | .SUBi => emitBinop stack ins .sub .i32
  | .MULi => emitBinop stack ins .mul .i32
  | .DIVi => emitBinop stack ins .sdiv .i32
  | .MODi => emitBinop stack ins .srem .i32
  | .ADDf => emitBinop stack ins .fadd .f32
  | .SUBf => emitBinop stack ins .fsub .f32
  | .MULf => emitBinop stack ins .fmul .f32
  | .DIVf => emitBinop stack ins .fdiv .f32
  | .MODf => emitBinop stack ins .frem .f32
  | .ADDd => emitBinop stack ins .fadd .f64
  | .SUBd => emitBinop stack ins .fsub .f64
  | .MULd => emitBinop stack ins .fmul .f64
  | .DIVd => emitBinop stack ins .fdiv .f64
  | .MODd => emitBinop stack ins .frem .f64
  | .ADDIi => emitBinopWith stack ins .add (constantInt .i32 (ins.argInt 1))
  | .SUBIi => emitBinopWith stack ins .sub (constantInt .i32 (ins.argInt 1))
  | .MULIi => emitBinopWith stack ins .mul (constantInt .i32 (ins.argInt 1))
  | .ADDIf => emitBinopWith stack ins .fadd ⟨.const ((ins.argDWord 1).setWidth 64), .f32⟩
  | .SUBIf => emitBinopWith stack ins .fsub ⟨.const ((ins.argDWord 1).setWidth 64), .f32⟩
  | .MULIf => emitBinopWith stack ins .fmul ⟨.const ((ins.argDWord 1).setWidth 64), .f32⟩
  | .SetG4 =>
      createStore (constantInt .i32 (ins.argDWord asPtrSize).toInt)
        ⟨.const ins.argPWord, .ptr .i32⟩
  | .ChkNullV => do emitCheckNullPointer (← stack.load ins.argSWord0 .pvoid)
  | .iTOb => emitCast stack ins .trunc .i32 .i8
  | .iTOw => emitCast stack ins .trunc .i32 .i16
  | .i64TOi => emitCast stack ins .trunc .i64 .i32
  | .uTOi64 => emitCast stack ins .zext .i32 .i64
  | .iTOi64 => emitCast stack ins .sext .i32 .i64
  | .fTOi64 => emitCast stack ins .fptosi .f32 .i64
  | .dTOi64 => emitCast stack ins .fptosi .f64 .i64
  | .fTOu64 => emitCast stack ins .fptoui .f32 .i64
  | .dTOu64 => emitCast stack ins .fptoui .f64 .i64
  | .i64TOf => emitCast stack ins .sitofp .i64 .f32
  | .u64TOf => emitCast stack ins .uitofp .i64 .f32
  | .i64TOd => emitCast stack ins .sitofp .i64 .f64
  | .u64TOd => emitCast stack ins .uitofp .i64 .f64
  | .ADDi64 => emitBinop stack ins .add .i64
  | .SUBi64 => emitBinop stack ins .sub .i64
  | .MULi64 => emitBinop stack ins .mul .i64
  | .DIVi64 => emitBinop stack ins .sdiv .i64
  | .MODi64 => emitBinop stack ins .srem .i64
  | .BAND64 => emitBinop stack ins .and .i64
  | .BOR64 => emitBinop stack ins .or .i64
  | .BXOR64 => emitBinop stack ins .xor .i64
  | .BSLL64 => emitBinop stack ins .shl .i64
  | .BSRL64 => emitBinop stack ins .lshr .i64
  | .BSRA64 => emitBinop stack ins .ashr .i64
  | .CMPi64 => compareVariables stack ins .i64
  | .CMPu64 => compareVariables stack ins .i64 false
  | .ClrHi => do
      let sourceValue ← loadValueRegisterValue .i8
      storeValueRegisterValue (← createCast .zext sourceValue .i32)
  | .JitEntry => pure ()
  | .FuncPtr => stack.push ⟨.const ins.argPWord, .iptr⟩ asPtrSize
  | .LoadThisR => do
      let object ← stack.load 0 .pvoid
      emitCheckNullPointer object
      storeValueRegisterValue
        (← createInBoundsGEP object (constantInt .iptr ins.argSWord0) 1 .pvoid)
  | .PshV8 => do stack.push (← stack.load ins.argSWord0 .i64) 2
  | .DIVu => emitBinop stack ins .udiv .i32
  | .MODu => emitBinop stack ins .urem .i32
  | .DIVu64 => emitBinop stack ins .udiv .i64
  | .MODu64 => emitBinop stack ins .urem .i64
  | .LoadRObjR => do
      let basePointer ← stack.load ins.argSWord0 .pvoid
      emitCheckNullPointer basePointer
      storeValueRegisterValue
        (← createInBoundsGEP basePointer (constantInt .iptr ins.argSWord1) 1 .pvoid)
  | .RefCpyV => translateRefCpyV stack ins
  | .AllocMem => do
      stack.store ins.argSWord0
        (← createCall .pvoid (.runtime .alloc) [constantInt .iptr ins.argDWord.toNat])
  | .SetListSize => do
      let listPointer ← stack.load ins.argSWord0 .pvoid
      let targetPointer ← createInBoundsGEP listPointer
        (constantInt .iptr ins.argDWord.toNat) 1 .pvoid
      createStore (constantInt .i32 (ins.argDWord 1).toInt) targetPointer
  | .PshListElmnt => do
      let listPointer ← stack.load ins.argSWord0 .pvoid
      let targetPointer ← createInBoundsGEP listPointer
        (constantInt .iptr ins.argDWord.toNat) 1 .pvoid
      stack.push targetPointer asPtrSize
  | _ => unimpl stack.config

/-- `get_branch_target`. -/
def getBranchTarget (jumps : JumpTables) (ins : BytecodeInstruction) : EmitM BlockId :=
  atOrThrow (jumps.jumpMap ins.target)

/-- `get_conditional_fail_branch_target`. -/
def getConditionalFailBranchTarget (jumps : JumpTables) (ins : BytecodeInstruction) :
    EmitM BlockId :=
  atOrThrow (jumps.jumpMap (ins.offset + 2))

/-- A conditional jump on a test of the value register against zero: `emit_conditional_branch`
at `i32`, `JLowZ` and `JLowNZ` at `i8`. -/
def emitConditionalBranch (jumps : JumpTables) (ins : BytecodeInstruction) (pred : Pred)
    (type : Ty := .i32) : EmitM Terminator := do
  let condition ← createICmp pred (← loadValueRegisterValue type) (constantInt type 0)
  let target ← getBranchTarget jumps ins
  let fail ← getConditionalFailBranchTarget jumps ins
  pure (.condBr condition.op target fail)

/-- `asBC_RET`: the value of the register the return type belongs to goes through the first
argument, unless the function returns nothing or on the stack. -/
def translateRet (stack : StackFrame) (ins : BytecodeInstruction) : EmitM Terminator := do
  let type := stack.scriptFunction.returnType
  if type.tokenType ≠ .ttVoid ∧ !stack.scriptFunction.doesReturnOnStack then
    let llvmType ← toLlvmType type
    let returnPointer : Value := ⟨.arg 0, .ptr llvmType⟩
    if type.isObjectHandle || type.isObject then
      let object ← createLoad .pvoid objectRegister
      createStore (pointerCast object llvmType) returnPointer
    else
      createStore (← loadValueRegisterValue llvmType) returnPointer
  modify fun s => { s with retPointer := some ins.offset }
  pure (.ret VmState.Ok.const.op)

/-- `asBC_JMPP`. -/
def translateJmpP (stack : StackFrame) (jumps : JumpTables) (ins : BytecodeInstruction) :
    EmitM Terminator := do
  let targets ← atOrThrow (jumps.switchMap ins.offset)
  asllvmAssert stack.config !targets.isEmpty
  let value ← stack.load ins.argSWord0 .i32
  let default ← dereference targets.getLast?
  pure (.switch value.op default targets)

/-- The switch of `translate_instruction`: the code of one instruction, and the terminator it
ends with, if any. -/
def translateOpcode (stack : StackFrame) (jumps : JumpTables) (ins : BytecodeInstruction) :
    EmitM (Option Terminator) :=
  match ins.bc with
  | .RET => do pure (some (← translateRet stack ins))
  | .JMP => do pure (some (.br (← getBranchTarget jumps ins)))
  | .JZ => do pure (some (← emitConditionalBranch jumps ins .eq))
  | .JNZ => do pure (some (← emitConditionalBranch jumps ins .ne))
  | .JS => do pure (some (← emitConditionalBranch jumps ins .slt))
  | .JNS => do pure (some (← emitConditionalBranch jumps ins .sge))
  | .JP => do pure (some (← emitConditionalBranch jumps ins .sgt))
  | .JNP => do pure (some (← emitConditionalBranch jumps ins .sle))
  | .JLowZ => do pure (some (← emitConditionalBranch jumps ins .eq .i8))
  | .JLowNZ => do pure (some (← emitConditionalBranch jumps ins .ne .i8))
  | .JMPP => do pure (some (← translateJmpP stack jumps ins))
  | _ => do
      translateOrdinary stack ins
      pure none

end Asllvm
