import Asllvm.AngelScript
import Asllvm.Ir

/-!
# Emission

The state of `FunctionBuilder` while it emits one piece of code, and the `IRBuilder` calls it
makes. Emission runs in `EmitM`: it may fail (`EmitError`), it moves the compile-time stack
pointer, and it appends to a list of pieces. A piece is either an instruction or a check
(`emit_check_boolean`); what a check does to the blocks of the function is defined where
pieces are placed into blocks (`Asllvm.FunctionBuilder`), so everything that emits ordinary
code is independent of the shape of the control-flow graph.

`asllvm_assert` disappears when `NDEBUG` is defined. The flag `assertions` of the
configuration says whether it is there.
-/

namespace Asllvm

/-- How a translation can fail: an `asllvm_assert` that aborts, a lookup with `at` that throws
`std::out_of_range`, an index past the end of an array, which throws nothing and is undefined, or an
LLVM call outside its contract. -/
inductive EmitError
  | assertion
  | outOfRange
  | overrun
  | invalid
deriving DecidableEq, Repr

/-- `JitConfig`, as far as translation depends on it, and whether assertions are compiled
in. -/
structure JitConfig where
  allowDevirtualization : Bool
  assertions : Bool
deriving DecidableEq, Repr

/-- One emitted piece of code: an instruction, or `emit_check_boolean(cond, state)`. -/
inductive Piece
  | instr (i : Instr)
  | check (cond state : Operand)
deriving DecidableEq, Repr

/-- The mutable state of emission: `m_stack_pointer`, the next unused virtual register,
`m_ret_pointer` (as an offset into the bytecode), and the pieces emitted so far. -/
structure EmitState where
  stackPointer : ℤ
  nextReg : ℕ
  retPointer : Option ℕ
  out : List Piece
deriving DecidableEq, Repr

/-- The emission monad. -/
abbrev EmitM := StateT EmitState (Except EmitError)

/-- `asllvm_assert(condition)`. -/
def asllvmAssert (config : JitConfig) (condition : Bool) : EmitM Unit :=
  if config.assertions && !condition then throw .assertion else pure ()

/-- `asllvm_assert(false && "unimplemented instruction ...")`. -/
def unimpl (config : JitConfig) : EmitM Unit := asllvmAssert config false

/-- `map.at(key)` of a `std::map`: throws when absent. -/
def atOrThrow {α : Type} : Option α → EmitM α
  | some a => pure a
  | none => throw .outOfRange

/-- An element of an `asCArray`, a parameter type of an `llvm::FunctionType` or an argument of a
function, by an index that is not checked. -/
def elementAt {α : Type} : Option α → EmitM α
  | some a => pure a
  | none => throw .overrun

/-- Append an instruction at the insertion point. -/
def emitInstr (i : Instr) : EmitM Unit :=
  modify fun s => { s with out := s.out ++ [.instr i] }

/-- `emit_check_boolean`: leave with `state` if `cond` holds, continue otherwise. -/
def emitCheckBoolean (cond state : Value) : EmitM Unit :=
  modify fun s => { s with out := s.out ++ [.check cond.op state.op] }

/-- Append the instruction that defines a new virtual register of type `ty`. -/
def define (ty : Ty) (i : ℕ → Instr) : EmitM Value :=
  modifyGet fun s => (⟨.reg s.nextReg, ty⟩,
    { s with nextReg := s.nextReg + 1, out := s.out ++ [.instr (i s.nextReg)] })

/-- `llvm::ConstantInt::get(ty, v)`: the value is reduced to the width of the type. -/
def constantInt (ty : Ty) (v : ℤ) : Value :=
  ⟨.const ((BitVec.ofInt 64 v).setWidth ty.bits |>.setWidth 64), ty⟩

/-- `CreatePointerCast`: only the type changes. -/
def pointerCast (v : Value) (ty : Ty) : Value := { v with ty := ty }

/-- `CreateLoad`. -/
def createLoad (ty : Ty) (ptr : Value) : EmitM Value :=
  define ty fun r => .load r ty ptr.op

/-- `CreateStore`. -/
def createStore (value ptr : Value) : EmitM Unit :=
  emitInstr (.store value.ty value.op ptr.op)

/-- `CreateBinOp`. -/
def createBinOp (op : BinOp) (lhs rhs : Value) : EmitM Value :=
  define lhs.ty fun r => .binop r op lhs.ty lhs.op rhs.op

/-- `CreateICmp`. -/
def createICmp (pred : Pred) (lhs rhs : Value) : EmitM Value :=
  define .i1 fun r => .icmp r pred lhs.ty lhs.op rhs.op

/-- `CreateFCmp`. -/
def createFCmp (pred : FPred) (lhs rhs : Value) : EmitM Value :=
  define .i1 fun r => .fcmp r pred lhs.ty lhs.op rhs.op

/-- `CreateSelect`. -/
def createSelect (cond ifTrue ifFalse : Value) : EmitM Value :=
  define ifTrue.ty fun r => .select r cond.op ifTrue.op ifFalse.op

/-- `CreateCast`. -/
def createCast (op : CastOp) (value : Value) (ty : Ty) : EmitM Value :=
  define ty fun r => .cast r op value.ty value.op ty

/-- `CreateInBoundsGEP` with elements of `scale` bytes. -/
def createInBoundsGEP (base index : Value) (scale : ℕ) (ty : Ty) : EmitM Value :=
  define ty fun r => .gep r base.op index.op index.ty scale

/-- `CreateCall` of a function that returns a value of type `ty`. -/
def createCall (ty : Ty) (callee : Callee) (args : List Value) : EmitM Value :=
  if ty = .void then do
    emitInstr (.call none callee args)
    pure ⟨.const 0, .void⟩
  else define ty fun r => .call (some r) callee args

/-- `VmState`, as the constants of type `vm_state` the checks compare with and return. -/
inductive VmState
  | Ok
  | ExceptionExternal
  | ExceptionNullPointer
deriving DecidableEq, Repr

/-- The `std::uint8_t` behind a `VmState`. -/
def VmState.toInt : VmState → ℤ
  | .Ok => 0
  | .ExceptionExternal => 1
  | .ExceptionNullPointer => 2

/-- `llvm::ConstantInt::get(types.vm_state, state)`. -/
def VmState.const (state : VmState) : Value := constantInt .vmState state.toInt

/-- `emit_check_null_pointer`. -/
def emitCheckNullPointer (pointer : Value) : EmitM Unit := do
  let isNull ← createICmp .eq pointer ⟨.const 0, pointer.ty⟩
  emitCheckBoolean isNull VmState.ExceptionNullPointer.const

/-- `emit_check_vm_state`: leave with `state` itself unless it is `Ok`. -/
def emitCheckVmState (state : Value) : EmitM Unit := do
  let failed ← createICmp .ne state VmState.Ok.const
  emitCheckBoolean failed state

/-- `emit_check_context_state`: leave with `ExceptionExternal` when the context reports an
exception or an error. -/
def emitCheckContextState : EmitM Unit := do
  let status ← createCall .vmState (.runtime .checkExecutionStatus) []
  let failed ← createICmp .ne status (constantInt .vmState 0)
  emitCheckBoolean failed VmState.ExceptionExternal.const

/-- The alloca of `m_value_register`. -/
def valueRegister : Value := ⟨.frame .valueRegister 0, .ptr .i64⟩

/-- The alloca of `m_object_register`. -/
def objectRegister : Value := ⟨.frame .objectRegister 0, .ptr .pvoid⟩

/-- `get_value_register_pointer`. -/
def getValueRegisterPointer (ty : Ty) : Value := pointerCast valueRegister (.ptr ty)

/-- `store_value_register_value`. -/
def storeValueRegisterValue (value : Value) : EmitM Unit :=
  createStore value (getValueRegisterPointer value.ty)

/-- `load_value_register_value`. -/
def loadValueRegisterValue (ty : Ty) : EmitM Value :=
  createLoad ty (getValueRegisterPointer ty)

/-- `load_global`: the address is a constant of the bytecode. -/
def loadGlobal (address : BitVec 64) (ty : Ty) : EmitM Value :=
  createLoad ty ⟨.const address, .ptr .i32⟩

end Asllvm
