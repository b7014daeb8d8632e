import Mathlib.Logic.Function.Basic
import Asllvm.Translate

/-!
# Building a Function

`FunctionBuilder`: the pieces of `Asllvm.Translate` are placed into basic blocks.

* `Cfg` is the function under construction: the content of every block, the block code is
  appended to, and how many pairs of check blocks there are.
* `preprocess` is the pre-pass that creates the labels and the jump tables.
* `translateInstruction` enters the block of its label, if there is one, and then emits the
  code of the instruction; `translateBytecode` scans the whole bytecode.
* `createVmEntryThunk` is the function the AngelScript VM enters the implementation through.
-/

namespace Asllvm

/-! ### Blocks -/

/-- `GeneratedFunctionType`. -/
inductive GeneratedFunctionType
  | Implementation
  | VmEntryThunk
deriving DecidableEq, Repr

/-- Whether an item only marks a position: LLVM has nothing there. -/
def Item.isMarker : Item → Bool
  | .marker _ => true
  | _ => false

/-- The function under construction: what has been appended to each block, the insertion
point, and the number of `emit_check_boolean` calls so far. -/
structure Cfg where
  blocks : BlockId → List Item
  insertBlock : BlockId
  nextCheck : ℕ

namespace Cfg

/-- A new function, positioned at its `entry` block. -/
def new : Cfg := ⟨fun _ => [], .entry, 0⟩

/-- Append an item at the insertion point. -/
def append (cfg : Cfg) (item : Item) : Cfg :=
  { cfg with
    blocks := Function.update cfg.blocks cfg.insertBlock
      (cfg.blocks cfg.insertBlock ++ [item]) }

/-- `SetInsertPoint`. -/
def setInsertPoint (cfg : Cfg) (block : BlockId) : Cfg := { cfg with insertBlock := block }

/-- `GetInsertBlock()->getTerminator()` is not null: the last instruction is a terminator. -/
def hasTerminator (cfg : Cfg) : Bool :=
  ((cfg.blocks cfg.insertBlock).filter (!·.isMarker)).getLast?.any Item.isTerminator

/-- `switch_to_block`. -/
def switchToBlock (cfg : Cfg) (block : BlockId) : Cfg :=
  (if cfg.hasTerminator then cfg else cfg.append (.term (.br block))).setInsertPoint block

/-- `emit_vm_exception_return`. -/
def emitVmExceptionReturn (type : GeneratedFunctionType) (cfg : Cfg) (state : Operand) : Cfg :=
  match type with
  | .Implementation => cfg.append (.term (.ret state))
  | .VmEntryThunk =>
      cfg.append (.instr (.call none (.runtime .setInternalException) [⟨state, .vmState⟩]))

/-- `emit_check_boolean`. -/
def emitCheckBoolean (type : GeneratedFunctionType) (cfg : Cfg) (value stateIfTrue : Operand) :
    Cfg :=
  let onTrue := BlockId.setVmException cfg.nextCheck
  let onFalse := BlockId.doNotSetVmException cfg.nextCheck
  let cfg := { cfg with nextCheck := cfg.nextCheck + 1 }
  let cfg := cfg.append (.term (.condBr value onTrue onFalse))
  let cfg := (cfg.setInsertPoint onTrue).emitVmExceptionReturn type stateIfTrue
  let cfg := if type = .VmEntryThunk then cfg.append (.term (.br onFalse)) else cfg
  cfg.setInsertPoint onFalse

/-- Place one piece of code at the insertion point. -/
def place (type : GeneratedFunctionType) (cfg : Cfg) : Piece → Cfg
  | .instr i => cfg.append (.instr i)
  | .check value stateIfTrue => cfg.emitCheckBoolean type value stateIfTrue

end Cfg

/-- The state of `FunctionBuilder`: that of emission, and the function under construction. -/
structure BuilderState where
  emit : EmitState
  cfg : Cfg

/-- The monad of `FunctionBuilder`. -/
abbrev BuildM := StateT BuilderState (Except EmitError)

/-- Run an emission and place the pieces it emits. -/
def emitCode {α : Type} (type : GeneratedFunctionType) (code : EmitM α) : BuildM α :=
  fun st => do
    let (a, emit) ← code { st.emit with out := [] }
    pure (a, ⟨emit, emit.out.foldl (Cfg.place type) st.cfg⟩)

/-- Change the function under construction. -/
def modifyCfg (f : Cfg → Cfg) : BuildM Unit := modify fun st => { st with cfg := f st.cfg }

/-! ### The pre-pass -/

/-- `PreprocessContext`. -/
structure PreprocessContext where
  currentSwitchOffset : ℕ
  handlingJumpTable : Bool
deriving DecidableEq, Repr

/-- `insert_label`: one block for each offset. -/
def JumpTables.insertLabel (tables : JumpTables) (offset : ℤ) : JumpTables :=
  if (tables.jumpMap offset).isSome then tables
  else { tables with jumpMap := Function.update tables.jumpMap offset (some (.label offset)) }

/-- `m_switch_map.emplace(offset, {})` followed by `push_back` of the label at `target`. -/
def JumpTables.pushSwitchTarget (tables : JumpTables) (offset : ℕ) (target : ℤ) : JumpTables :=
  let targets := (tables.switchMap offset).getD [] ++ (tables.jumpMap target).toList
  { tables with switchMap := Function.update tables.switchMap offset (some targets) }

/-- `preprocess_unconditional_branch`. -/
def preprocessUnconditionalBranch (tables : JumpTables) (ins : BytecodeInstruction) :
    JumpTables :=
  tables.insertLabel ins.target

/-- `preprocess_conditional_branch`. -/
def preprocessConditionalBranch (tables : JumpTables) (ins : BytecodeInstruction) :
    JumpTables :=
  preprocessUnconditionalBranch (tables.insertLabel (ins.offset + 2)) ins

/-- `preprocess_instruction`. -/
def preprocessInstruction (st : JumpTables × PreprocessContext) (ins : BytecodeInstruction) :
    JumpTables × PreprocessContext :=
  let (tables, ctx) := st
  match ins.bc with
  | .JMPP => (tables, ⟨ins.offset, true⟩)
  | .JMP =>
      let tables := preprocessUnconditionalBranch tables ins
      if ctx.handlingJumpTable then
        ((tables.insertLabel ins.offset).pushSwitchTarget ctx.currentSwitchOffset ins.offset, ctx)
      else (tables, ctx)
  | .JZ | .JNZ | .JS | .JNS | .JP | .JNP | .JLowZ | .JLowNZ =>
      (preprocessConditionalBranch tables ins, { ctx with handlingJumpTable := false })
  | _ => (tables, { ctx with handlingJumpTable := false })

/-- The tables before the pre-pass. -/
def JumpTables.empty : JumpTables := ⟨fun _ => none, fun _ => none⟩

/-- The pre-pass of `translate_bytecode`. -/
def preprocess (bytecode : List BytecodeInstruction) : JumpTables :=
  (bytecode.foldl preprocessInstruction (.empty, ⟨0, false⟩)).1

/-! ### The scan -/

/-- `translate_instruction`. The marker stands where the source has set the debug location
and, if the instruction has a label, entered its block. -/
def translateInstruction (stack : StackFrame) (jumps : JumpTables)
    (ins : BytecodeInstruction) : BuildM Unit := do
  let oldStackPointer ← emitCode .Implementation StackFrame.currentStackPointer
  match jumps.jumpMap ins.offset with
  | some block => do
      emitCode .Implementation do asllvmAssert stack.config (← stack.emptyStack)
      modifyCfg (·.switchToBlock block)
  | none => pure ()
  modifyCfg (·.append (.marker ins.offset))
  emitCode .Implementation stack.checkStackPointerBounds
  match ← emitCode .Implementation (translateOpcode stack jumps ins) with
  | some terminator => modifyCfg (·.append (.term terminator))
  | none => pure ()
  if ins.info.stackInc ≠ 0xFFFF then
    emitCode .Implementation do
      asllvmAssert stack.config
        ((← StackFrame.currentStackPointer) - oldStackPointer = ins.info.stackInc)

/-- `StackFrame::finalize`. -/
def StackFrame.finalize (stack : StackFrame) : EmitM Unit := do
  asllvmAssert stack.config (← stack.emptyStack)

/-- The state a `FunctionBuilder` starts in. -/
def BuilderState.new : BuilderState := ⟨⟨0, 0, none, []⟩, .new⟩

/-- The scan of `translate_bytecode`, from the local structures to `finalize`. -/
def buildImplementation (context : FunctionContext) (jumps : JumpTables)
    (bytecode : List BytecodeInstruction) : BuildM StackFrame := do
  let stack ← emitCode .Implementation (emitAllocateLocalStructures context)
  bytecode.forM (translateInstruction stack jumps)
  emitCode .Implementation stack.finalize
  pure stack

/-- What `translate_bytecode` leaves behind: the function, and the members of the builder
that `create_vm_entry_thunk` goes on with. -/
structure Translation where
  stack : StackFrame
  jumps : JumpTables
  emit : EmitState
  cfg : Cfg

/-- `translate_bytecode`. -/
def translateBytecode (context : FunctionContext) (bytecode : List BytecodeInstruction) :
    Except EmitError Translation := do
  let jumps := preprocess bytecode
  let (stack, st) ← buildImplementation context jumps bytecode .new
  pure ⟨stack, jumps, st.emit, st.cfg⟩

/-! ### The entry thunk -/

/-- The address of a field of `asSVMRegisters`, whose fields up to the object register have
the size of a pointer. -/
def vmRegister (field : ℕ) (ty : Ty) : EmitM Value :=
  createInBoundsGEP ⟨.arg 0, .pvoid⟩ (constantInt .i32 field) 8 ty

/-- The body of the thunk: the arguments of the implementation are read from the frame of the
VM, and the program pointer is left at the `RET` of the function. -/
def vmEntryThunkBody (stack : StackFrame) : EmitM Unit := do
  let framePointerPointer ← vmRegister 1 (.ptr (.ptr .i32))
  let framePointer ← createLoad (.ptr .i32) framePointerPointer
  let valueRegister ← vmRegister 3 (.ptr .iptr)
  let objectRegister ← vmRegister 4 (.ptr .pvoid)
  let _ ← emitScriptCall stack stack.scriptFunction
    (some ⟨framePointer, valueRegister, objectRegister⟩)
  let programPointer ← vmRegister 0 (.ptr (.ptr .i32))
  let retPointer := (← get).retPointer
  createStore ⟨(retPointer.map Operand.bytecode).getD (.const 0), .ptr .i32⟩ programPointer

/-- `create_vm_entry_thunk`, after `translate_bytecode`. -/
def createVmEntryThunk (translation : Translation) : Except EmitError Cfg := do
  let st : BuilderState := ⟨{ translation.emit with nextReg := 0 }, .new⟩
  let ((), st) ← emitCode .VmEntryThunk (vmEntryThunkBody translation.stack) st
  pure (st.cfg.append (.term .retVoid))

end Asllvm
