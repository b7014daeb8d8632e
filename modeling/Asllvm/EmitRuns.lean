import Asllvm.Lib.Runs
import Asllvm.Calls

/-!
# The Runs of the Emission Primitives

What each primitive of `Asllvm.Emit` and `Asllvm.StackFrame` does when it succeeds. Every
successful emission moves the stack pointer by some dwords, defines some registers and
appends some pieces; `EmitState.move` and `EmitState.extend` name these effects, and the
lemmas below put the final state of a run into the form `(s.move d).extend n ps`.

The primitives never look at the pieces emitted before them, so a later module only has to
say which pieces a translator function appends.
-/

open StateExcept

namespace Asllvm

namespace EmitState

/-- The state after defining `regs` registers and emitting the pieces `ps`. -/
def extend (s : EmitState) (regs : ℕ) (ps : List Piece) : EmitState :=
  { s with nextReg := s.nextReg + regs, out := s.out ++ ps }

/-- The state after moving the stack pointer. -/
def move (s : EmitState) (dwords : ℤ) : EmitState :=
  { s with stackPointer := s.stackPointer + dwords }

variable (s : EmitState) (m n : ℕ) (ps qs : List Piece) (d e : ℤ)

@[simp] theorem extend_stackPointer : (s.extend n ps).stackPointer = s.stackPointer := rfl
@[simp] theorem extend_nextReg : (s.extend n ps).nextReg = s.nextReg + n := rfl
@[simp] theorem extend_retPointer : (s.extend n ps).retPointer = s.retPointer := rfl
@[simp] theorem extend_out : (s.extend n ps).out = s.out ++ ps := rfl
@[simp] theorem move_stackPointer : (s.move d).stackPointer = s.stackPointer + d := rfl
@[simp] theorem move_nextReg : (s.move d).nextReg = s.nextReg := rfl
@[simp] theorem move_retPointer : (s.move d).retPointer = s.retPointer := rfl
@[simp] theorem move_out : (s.move d).out = s.out := rfl

@[simp] theorem extend_extend : (s.extend m ps).extend n qs = s.extend (m + n) (ps ++ qs) := by
  simp [extend, Nat.add_assoc]

@[simp] theorem extend_zero_nil : s.extend 0 [] = s := by simp [extend]

@[simp] theorem move_extend : (s.extend n ps).move d = (s.move d).extend n ps := rfl

@[simp] theorem move_move : (s.move d).move e = s.move (d + e) := by
  simp [move, Int.add_assoc]

@[simp] theorem move_zero : s.move 0 = s := by simp [move]

end EmitState

variable {s t : EmitState} {v : Value} {u : Unit}

/-! ### Assertions and lookups -/

@[simp]
theorem runs_asllvmAssert {config : JitConfig} {c : Bool} :
    Runs (asllvmAssert config c) s u t ↔ (config.assertions = true → c = true) ∧ t = s := by
  cases ha : config.assertions <;> cases c <;> simp [asllvmAssert, ha]

@[simp]
theorem runs_unimpl {config : JitConfig} :
    Runs (unimpl config) s u t ↔ config.assertions = false ∧ t = s := by
  simp [unimpl]

@[simp]
theorem runs_atOrThrow {α : Type} {o : Option α} {a : α} :
    Runs (atOrThrow o) s a t ↔ o = some a ∧ t = s := by
  cases o <;> simp [atOrThrow, eq_comm]

@[simp]
theorem runs_elementAt {α : Type} {o : Option α} {a : α} :
    Runs (elementAt o) s a t ↔ o = some a ∧ t = s := by
  cases o <;> simp [elementAt, eq_comm]

@[simp]
theorem runs_dereference {α : Type} {o : Option α} {a : α} :
    Runs (dereference o) s a t ↔ o = some a ∧ t = s := by
  cases o <;> simp [dereference, eq_comm]

/-! ### The builder's primitives -/

@[simp]
theorem runs_emitInstr {i : Instr} :
    Runs (emitInstr i) s u t ↔ t = s.extend 0 [.instr i] := by
  simp [emitInstr, EmitState.extend]

@[simp]
theorem runs_emitCheckBoolean {cond state : Value} :
    Runs (emitCheckBoolean cond state) s u t ↔ t = s.extend 0 [.check cond.op state.op] := by
  simp [emitCheckBoolean, EmitState.extend]

@[simp]
theorem runs_define {ty : Ty} {i : ℕ → Instr} :
    Runs (define ty i) s v t ↔
      v = ⟨.reg s.nextReg, ty⟩ ∧ t = s.extend 1 [.instr (i s.nextReg)] := by
  simp [define, EmitState.extend]

@[simp]
theorem runs_createLoad {ty : Ty} {ptr : Value} :
    Runs (createLoad ty ptr) s v t ↔
      v = ⟨.reg s.nextReg, ty⟩ ∧ t = s.extend 1 [.instr (.load s.nextReg ty ptr.op)] := by
  simp [createLoad]

@[simp]
theorem runs_createStore {value ptr : Value} :
    Runs (createStore value ptr) s u t ↔
      t = s.extend 0 [.instr (.store value.ty value.op ptr.op)] := by
  simp [createStore]

@[simp]
theorem runs_createBinOp {op : BinOp} {lhs rhs : Value} :
    Runs (createBinOp op lhs rhs) s v t ↔ v = ⟨.reg s.nextReg, lhs.ty⟩ ∧
      t = s.extend 1 [.instr (.binop s.nextReg op lhs.ty lhs.op rhs.op)] := by
  simp [createBinOp]

@[simp]
theorem runs_createICmp {pred : Pred} {lhs rhs : Value} :
    Runs (createICmp pred lhs rhs) s v t ↔ v = ⟨.reg s.nextReg, .i1⟩ ∧
      t = s.extend 1 [.instr (.icmp s.nextReg pred lhs.ty lhs.op rhs.op)] := by
  simp [createICmp]

@[simp]
theorem runs_createFCmp {pred : FPred} {lhs rhs : Value} :
    Runs (createFCmp pred lhs rhs) s v t ↔ v = ⟨.reg s.nextReg, .i1⟩ ∧
      t = s.extend 1 [.instr (.fcmp s.nextReg pred lhs.ty lhs.op rhs.op)] := by
  simp [createFCmp]

@[simp]
theorem runs_createSelect {cond ifTrue ifFalse : Value} :
    Runs (createSelect cond ifTrue ifFalse) s v t ↔ v = ⟨.reg s.nextReg, ifTrue.ty⟩ ∧
      t = s.extend 1 [.instr (.select s.nextReg cond.op ifTrue.op ifFalse.op)] := by
  simp [createSelect]

@[simp]
theorem runs_createCast {op : CastOp} {value : Value} {ty : Ty} :
    Runs (createCast op value ty) s v t ↔ v = ⟨.reg s.nextReg, ty⟩ ∧
      t = s.extend 1 [.instr (.cast s.nextReg op value.ty value.op ty)] := by
  simp [createCast]

@[simp]
theorem runs_createInBoundsGEP {base index : Value} {scale : ℕ} {ty : Ty} :
    Runs (createInBoundsGEP base index scale ty) s v t ↔ v = ⟨.reg s.nextReg, ty⟩ ∧
      t = s.extend 1 [.instr (.gep s.nextReg base.op index.op index.ty scale)] := by
  simp [createInBoundsGEP]

@[simp]
theorem runs_createCall_void {callee : Callee} {args : List Value} :
    Runs (createCall .void callee args) s v t ↔ v = ⟨.const 0, .void⟩ ∧
      t = s.extend 0 [.instr (.call none callee args)] := by
  simp [createCall, and_comm]

theorem runs_createCall {ty : Ty} (hty : ty ≠ .void) {callee : Callee} {args : List Value} :
    Runs (createCall ty callee args) s v t ↔ v = ⟨.reg s.nextReg, ty⟩ ∧
      t = s.extend 1 [.instr (.call (some s.nextReg) callee args)] := by
  simp [createCall, hty]

@[simp]
theorem runs_createCall_i8 {callee : Callee} {args : List Value} :
    Runs (createCall .i8 callee args) s v t ↔ v = ⟨.reg s.nextReg, .i8⟩ ∧
      t = s.extend 1 [.instr (.call (some s.nextReg) callee args)] :=
  runs_createCall (by simp)

@[simp]
theorem runs_createCall_ptr {ty : Ty} {callee : Callee} {args : List Value} :
    Runs (createCall (.ptr ty) callee args) s v t ↔ v = ⟨.reg s.nextReg, .ptr ty⟩ ∧
      t = s.extend 1 [.instr (.call (some s.nextReg) callee args)] :=
  runs_createCall (by simp)

@[simp] theorem pointerCast_op (v : Value) (ty : Ty) : (pointerCast v ty).op = v.op := rfl
@[simp] theorem pointerCast_ty (v : Value) (ty : Ty) : (pointerCast v ty).ty = ty := rfl
@[simp] theorem constantInt_ty (ty : Ty) (n : ℤ) : (constantInt ty n).ty = ty := rfl

/-! ### The registers and the checks -/

@[simp] theorem getValueRegisterPointer_op (ty : Ty) :
    (getValueRegisterPointer ty).op = .frame .valueRegister 0 := rfl

@[simp] theorem objectRegister_op : objectRegister.op = .frame .objectRegister 0 := rfl

@[simp]
theorem runs_storeValueRegisterValue {value : Value} :
    Runs (storeValueRegisterValue value) s u t ↔
      t = s.extend 0 [.instr (.store value.ty value.op (.frame .valueRegister 0))] := by
  simp [storeValueRegisterValue]

@[simp]
theorem runs_loadValueRegisterValue {ty : Ty} :
    Runs (loadValueRegisterValue ty) s v t ↔ v = ⟨.reg s.nextReg, ty⟩ ∧
      t = s.extend 1 [.instr (.load s.nextReg ty (.frame .valueRegister 0))] := by
  simp [loadValueRegisterValue]

@[simp]
theorem runs_loadGlobal {address : BitVec 64} {ty : Ty} :
    Runs (loadGlobal address ty) s v t ↔ v = ⟨.reg s.nextReg, ty⟩ ∧
      t = s.extend 1 [.instr (.load s.nextReg ty (.const address))] := by
  simp [loadGlobal]

@[simp]
theorem runs_emitCheckNullPointer {pointer : Value} :
    Runs (emitCheckNullPointer pointer) s u t ↔
      t = s.extend 1 [.instr (.icmp s.nextReg .eq pointer.ty pointer.op (.const 0)),
        .check (.reg s.nextReg) VmState.ExceptionNullPointer.const.op] := by
  simp [emitCheckNullPointer, and_assoc]

@[simp]
theorem runs_emitCheckVmState {state : Value} :
    Runs (emitCheckVmState state) s u t ↔
      t = s.extend 1 [.instr (.icmp s.nextReg .ne state.ty state.op VmState.Ok.const.op),
        .check (.reg s.nextReg) state.op] := by
  simp [emitCheckVmState, and_assoc]

@[simp]
theorem runs_emitCheckContextState :
    Runs emitCheckContextState s u t ↔
      t = s.extend 2
        [.instr (.call (some s.nextReg) (.runtime .checkExecutionStatus) []),
          .instr (.icmp (s.nextReg + 1) .ne .vmState (.reg s.nextReg) (.const 0)),
          .check (.reg (s.nextReg + 1)) VmState.ExceptionExternal.const.op] := by
  simp [emitCheckContextState, constantInt, and_assoc]

/-! ### The stack frame -/

namespace StackFrame

variable (stack : StackFrame) {offset d : ℤ} {ty : Ty} {n : ℕ} {value : Value}

/-- `pointer_to` accepts the offset: it names a parameter slot, or an element of the storage
(one past its end included, as in the source) when that is asserted. -/
def Addressable (offset : ℤ) : Prop :=
  if offset ≤ 0 then (stack.parameters.lookup offset).isSome = true
  else stack.config.assertions = true → offset ≤ stack.totalSpace

/-- The address `pointer_to` yields. -/
def slotAddress (offset : ℤ) : Operand :=
  if offset ≤ 0 then .frame (.parameter offset) 0
  else .frame .storage (4 * (stack.totalSpace - offset))

@[simp]
theorem runs_currentStackPointer {a : ℤ} :
    Runs currentStackPointer s a t ↔ a = s.stackPointer ∧ t = s := by
  simp [currentStackPointer, and_comm]

@[simp]
theorem runs_emptyStack {b : Bool} :
    Runs stack.emptyStack s b t ↔
      b = decide (s.stackPointer = stack.variableSpace) ∧ t = s := by
  simp [emptyStack, and_assoc, and_comm]

@[simp]
theorem runs_uglyHack : Runs stack.uglyHackStackPointerWithinBounds s u t ↔
    t = { s with stackPointer := max s.stackPointer stack.variableSpace } := by
  simp [uglyHackStackPointerWithinBounds]

@[simp]
theorem runs_checkStackPointerBounds : Runs stack.checkStackPointerBounds s u t ↔
    (stack.config.assertions = true →
      stack.variableSpace ≤ s.stackPointer ∧ s.stackPointer ≤ stack.totalSpace) ∧ t = s := by
  simp [checkStackPointerBounds, and_assoc, imp_and]

@[simp]
theorem runs_pointerToAs : Runs (stack.pointerToAs offset ty) s v t ↔
    stack.Addressable offset ∧ v = ⟨stack.slotAddress offset, .ptr ty⟩ ∧ t = s := by
  by_cases h : offset ≤ 0
  · cases hp : stack.parameters.lookup offset <;>
      simp [pointerToAs, pointerTo, Addressable, slotAddress, h, hp, pointerCast, and_comm]
  · have hle : stack.totalSpace - offset ≤ stack.totalSpace := by omega
    simp [pointerToAs, pointerTo, Addressable, slotAddress, h, hle, pointerCast, and_assoc,
      and_left_comm, and_comm]

@[simp]
theorem runs_load : Runs (stack.load offset ty) s v t ↔ stack.Addressable offset ∧
    v = ⟨.reg s.nextReg, ty⟩ ∧
    t = s.extend 1 [.instr (.load s.nextReg ty (stack.slotAddress offset))] := by
  simp [load, and_assoc]

@[simp]
theorem runs_store : Runs (stack.store offset value) s u t ↔ stack.Addressable offset ∧
    t = s.extend 0 [.instr (.store value.ty value.op (stack.slotAddress offset))] := by
  simp [store, and_assoc]

@[simp]
theorem runs_moveStackPointer : Runs (moveStackPointer d) s u t ↔ t = s.move d := by
  simp [moveStackPointer, EmitState.move]

@[simp]
theorem runs_popDWords : Runs (popDWords n) s u t ↔ t = s.move (-n) := by
  simp [popDWords]

@[simp]
theorem runs_push : Runs (stack.push value n) s u t ↔
    stack.Addressable (s.stackPointer + n) ∧
    t = (s.move n).extend 0
      [.instr (.store value.ty value.op (stack.slotAddress (s.stackPointer + n)))] := by
  simp [push, and_assoc]

@[simp]
theorem runs_pop : Runs (stack.pop n ty) s v t ↔ stack.Addressable s.stackPointer ∧
    v = ⟨.reg s.nextReg, ty⟩ ∧ t = (s.move (-n)).extend 1
      [.instr (.load s.nextReg ty (stack.slotAddress s.stackPointer))] := by
  simp only [pop, runs_bind, runs_currentStackPointer, runs_load, runs_popDWords, runs_pure]
  constructor
  · rintro ⟨_, _, ⟨rfl, rfl⟩, _, _, ⟨h, rfl, rfl⟩, _, _, rfl, rfl, rfl⟩
    exact ⟨h, rfl, rfl⟩
  · rintro ⟨h, rfl, rfl⟩
    exact ⟨_, _, ⟨rfl, rfl⟩, _, _, ⟨h, rfl, rfl⟩, (), _, rfl, rfl, rfl⟩

@[simp]
theorem runs_top : Runs (stack.top ty) s v t ↔ stack.Addressable s.stackPointer ∧
    v = ⟨.reg s.nextReg, ty⟩ ∧
    t = s.extend 1 [.instr (.load s.nextReg ty (stack.slotAddress s.stackPointer))] := by
  simp [top, and_assoc]

end StackFrame

end Asllvm
