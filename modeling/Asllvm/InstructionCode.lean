import Asllvm.VmVariables
import Asllvm.Arithmetic

/-!
# The Code of an Instruction Does What the VM Does

For every instruction on integers that ends no block: from a memory that agrees with the VM, its code
comes to a memory that agrees with the VM after the instruction, where LLVM defines the operation.

## Main results

* `integerOp_doesAsVm`, `move_doesAsVm`, `unaryOp_doesAsVm`, `conversion_doesAsVm`,
  `comparison_doesAsVm`, `test_doesAsVm` — one kind of instructions each.
* `translateOrdinary_doesAsVm` — all of them.
* `integerOp_stuck` — where LLVM does not define the operation, the code comes to nothing.
-/

open StateExcept

namespace Asllvm

/-- **Code does what the VM does** with an instruction: the memory agrees with the VM after it, if it
did before. -/
def DoesAsVm (context : FunctionContext) (env : Env) (host : Host) (ins : BytecodeInstruction)
    (m : Machine) (ps : List Piece) : Prop :=
  ∀ regs mem calls, m.Agrees context env.layout mem →
    ∃ m' regs' mem', m.exec ins = some m' ∧
      runCode env host ps ⟨regs, mem, calls⟩ = .goes ⟨regs', mem', calls⟩ ∧
      m'.Agrees context env.layout mem'

section Families

variable {context : FunctionContext} {T : Translation} {env : Env} {host : Host}
  {ins : BytecodeInstruction} {m : Machine} {e e' : EmitState} {ty : Ty}

/-! ### Operations on two operands -/

theorem Opcode.integerOp_isVariable {bc : Opcode} {op : BinOp}
    (h : bc.integerOp = some (op, ty)) : ty.IsVariable := Opcode.integerOp_ty h

/-- A dword that is a parameter or the lowest local has no eight bytes. -/
theorem FunctionContext.HasVariable.not_inFrame_of_lt {o : ℤ} (h : context.HasVariable o .i32)
    (hframe : ActivatesFunction context T env) (ho : ¬ 2 ≤ o) :
    ¬ T.stack.InFrame o Ty.i64.storeSize := by
  rw [StackFrame.InFrame, show Ty.i64.storeSize = 8 from rfl]
  rw [HasVariable] at h
  split at h
  · obtain ⟨k, slot, hslot, hty, rfl⟩ := h
    rw [if_pos (by assumption), hframe.lookup hslot hty]
    rintro ⟨parameter, hlookup, hsize⟩
    obtain rfl := Option.some.inj hlookup
    exact absurd (show 8 ≤ 4 from hsize) (by decide)
  · rw [if_neg (by assumption)]
    omega

/-- Zero above a dword. -/
theorem zero_append (x : BitVec 32) : ((0 : BitVec 32) ++ x : BitVec 64) = x.setWidth 64 := by
  rw [append_eq_or]
  simp

/-- The second operand is the one of the VM, other than in a shift of 64 bits. -/
theorem rightOperand_eq_of_narrow {op : BinOp} {mem : Bytes.Mem}
    (hframe : ActivatesFunction context T env)
    (hvariables : ∀ v ∈ ins.accesses, context.HasVariable v.1 v.2)
    (hop : ins.bc.integerOp = some (op, ty)) (hnarrow : op.isShift = true → ty = .i32)
    (h : m.Agrees context env.layout mem) :
    (ins.bc.hasImmediate = false → T.stack.InFrame ins.argSWord2 ty.storeSize) ∧
      rightOperand T.stack env.layout mem ins ty = m.rightOperand ins op ty := by
  have hty := Opcode.integerOp_isVariable hop
  rw [accesses_integerOp hop] at hvariables
  rw [rightOperand, Machine.rightOperand]
  cases himmediate : ins.bc.hasImmediate with
  | true => exact ⟨Bool.noConfusion, rfl⟩
  | false =>
      rw [himmediate, if_neg Bool.false_ne_true] at hvariables
      have hright := hvariables (ins.argSWord2, if op.isShift then .i32 else ty) (by simp)
      have hoperand : (if op.isShift then .i32 else ty) = ty := by
        split
        · exact (hnarrow (by assumption)).symm
        · rfl
      rw [if_neg Bool.false_ne_true, if_neg Bool.false_ne_true, hoperand]
      rw [hoperand] at hright
      exact ⟨fun _ => hright.inFrame hframe, h.valueOf hframe hright hty⟩

/-- The count of a shift of 64 bits is a variable of 32 bits. -/
theorem hasVariable_count {op : BinOp}
    (hvariables : ∀ v ∈ ins.accesses, context.HasVariable v.1 v.2)
    (hop : ins.bc.integerOp = some (op, ty)) (hshift : op.isShift = true) :
    ins.bc.hasImmediate = false ∧ context.HasVariable ins.argSWord2 .i32 := by
  have himmediate : ins.bc.hasImmediate = false := by
    cases himmediate : ins.bc.hasImmediate with
    | false => rfl
    | true =>
        unfold Opcode.integerOp at hop
        split at hop <;> cases hop <;> rename_i hbc <;>
          first | exact Bool.noConfusion hshift | (rw [hbc] at himmediate; cases himmediate)
  rw [accesses_integerOp hop, himmediate, if_neg Bool.false_ne_true, hshift, if_pos rfl] at hvariables
  exact ⟨himmediate, hvariables (ins.argSWord2, .i32) (by simp)⟩

/-- **The count of a shift of 64 bits** is loaded with the dword that follows it. -/
theorem rightOperand_wide {op : BinOp} {mem : Bytes.Mem} (hframe : ActivatesFunction context T env)
    (hvariables : ∀ v ∈ ins.accesses, context.HasVariable v.1 v.2)
    (hop : ins.bc.integerOp = some (op, .i64)) (hshift : op.isShift = true)
    (hlow : 2 ≤ ins.argSWord2) (h : m.Agrees context env.layout mem) :
    T.stack.InFrame ins.argSWord2 Ty.i64.storeSize ∧
      rightOperand T.stack env.layout mem ins .i64 =
        (m.dwords (ins.argSWord2 - 1) ++ m.dwords ins.argSWord2).setWidth Ty.i64.bits ∧
      m.rightOperand ins op .i64 =
        ((0 : BitVec 32) ++ m.dwords ins.argSWord2).setWidth Ty.i64.bits := by
  obtain ⟨himmediate, hright⟩ := hasVariable_count hvariables hop hshift
  have hcount : context.HasVariable ins.argSWord2 .i64 := by
    rw [FunctionContext.HasVariable, if_neg (by omega)] at hright ⊢
    refine ⟨?_, hright.2⟩
    rw [show Ty.i64.storeSize = 8 from rfl]
    omega
  refine ⟨hcount.inFrame hframe, ?_, ?_⟩
  · rw [rightOperand, himmediate, if_neg Bool.false_ne_true, h.valueOf hframe hcount (.inr rfl),
      Machine.value, if_pos rfl]
  · rw [Machine.rightOperand, himmediate, if_neg Bool.false_ne_true, hshift, if_pos rfl, Machine.value,
      if_neg (by decide), zero_append]

/-- **The second operand is the one of the VM**, where LLVM defines the operation. -/
theorem rightOperand_eq {op : BinOp} {mem : Bytes.Mem} (hframe : ActivatesFunction context T env)
    (hvariables : ∀ v ∈ ins.accesses, context.HasVariable v.1 v.2)
    (hop : ins.bc.integerOp = some (op, ty)) (hdefined : m.Defined ins)
    (h : m.Agrees context env.layout mem) :
    (ins.bc.hasImmediate = false → T.stack.InFrame ins.argSWord2 ty.storeSize) ∧
      rightOperand T.stack env.layout mem ins ty = m.rightOperand ins op ty := by
  by_cases hnarrow : op.isShift = true → ty = .i32
  · exact rightOperand_eq_of_narrow hframe hvariables hop hnarrow h
  · obtain ⟨hshift, hwide⟩ := Classical.not_imp.mp hnarrow
    obtain rfl := (Opcode.integerOp_isVariable hop).resolve_left hwide
    obtain ⟨hlow, hzero⟩ := (hdefined op .i64 hop).2 hshift rfl
    obtain ⟨hinFrame, hcode, hvm⟩ := rightOperand_wide hframe hvariables hop hshift hlow h
    exact ⟨fun _ => hinFrame, by rw [hcode, hvm, hzero]⟩

/-- A word with a high dword counts beyond 64 bits. -/
theorem not_shift_defined {op : BinOp} (hshift : op.isShift = true) {high : BitVec 32}
    (hhigh : high ≠ 0) (x : BitVec 64) (low : BitVec 32) : ¬ op.Defined x (high ++ low) := by
  have hbound : 64 ≤ (high ++ low : BitVec 64).toNat := by
    have hne : high.toNat ≠ 0 := fun h => hhigh (BitVec.eq_of_toNat_eq h)
    rw [BitVec.toNat_append, ← Nat.shiftLeft_add_eq_or_of_lt low.isLt, Nat.shiftLeft_eq]
    omega
  cases op with
  | shl | lshr | ashr => exact Nat.not_lt.mpr hbound
  | _ => exact Bool.noConfusion hshift

/-- **Where LLVM does not define the operation**, the code comes to nothing. -/
theorem integerOp_stuck {op : BinOp} {mem : Bytes.Mem} (hframe : ActivatesFunction context T env)
    (hvariables : ∀ v ∈ ins.accesses, context.HasVariable v.1 v.2)
    (hop : ins.bc.integerOp = some (op, ty)) (hundefined : ¬ m.Defined ins)
    (h : m.Agrees context env.layout mem) (regs : Regs) (calls : List Request) (r : ℕ) :
    ∃ p, runCode env host (integerCode T.stack ins op ty r) ⟨regs, mem, calls⟩ = .stuck p := by
  have hty := Opcode.integerOp_isVariable hop
  have hleft : context.HasVariable ins.argSWord1 ty :=
    hvariables (ins.argSWord1, ty) (by simp [accesses_integerOp hop])
  have hundefined : ¬ (op.Defined ((m.value ins.argSWord1 ty).setWidth ty.bits)
      (m.rightOperand ins op ty) ∧ (op.isShift = true → ty = .i64 →
        2 ≤ ins.argSWord2 ∧ m.dwords (ins.argSWord2 - 1) = 0)) := by
    intro hdefined
    refine hundefined fun op' ty' hop' => ?_
    obtain ⟨rfl, rfl⟩ := Prod.mk.inj (Option.some.inj (hop.symm.trans hop'))
    exact hdefined
  -- a right operand in the frame on which LLVM does not define the operation
  have hstuck (hright : ins.bc.hasImmediate = false → T.stack.InFrame ins.argSWord2 ty.storeSize)
      (hnot : ¬ op.Defined ((m.value ins.argSWord1 ty).setWidth ty.bits)
        (rightOperand T.stack env.layout mem ins ty)) :
      ∃ p, runCode env host (integerCode T.stack ins op ty r) ⟨regs, mem, calls⟩ = .stuck p := by
    rw [← h.valueOf hframe hleft hty] at hnot
    obtain ⟨regs', hcode⟩ := integerCode_stuck host (Opcode.integerOp_int hop) hframe.activates
      (hleft.inFrame hframe) hright ⟨regs, mem, calls⟩ r (BinOp.evalInt_of_not_defined hnot)
    exact ⟨_, hcode⟩
  by_cases hnarrow : op.isShift = true → ty = .i32
  · obtain ⟨hinFrame, hright⟩ := rightOperand_eq_of_narrow hframe hvariables hop hnarrow h
    refine hstuck hinFrame fun hdefined => hundefined ⟨hright ▸ hdefined, fun hshift hwide => ?_⟩
    rw [hnarrow hshift] at hwide
    exact Ty.noConfusion hwide
  · obtain ⟨hshift, hwide⟩ := Classical.not_imp.mp hnarrow
    obtain rfl := hty.resolve_left hwide
    by_cases hlow : 2 ≤ ins.argSWord2
    · obtain ⟨hinFrame, hcode, hvm⟩ := rightOperand_wide hframe hvariables hop hshift hlow h
      refine hstuck (fun _ => hinFrame) fun hdefined => ?_
      by_cases hzero : m.dwords (ins.argSWord2 - 1) = 0
      · refine hundefined ⟨?_, fun _ _ => ⟨hlow, hzero⟩⟩
        rwa [hcode, hzero, ← hvm] at hdefined
      · rw [hcode] at hdefined
        exact not_shift_defined hshift hzero _ _ hdefined
    · -- the eight bytes of the count reach beyond its alloca
      obtain ⟨himmediate, hcount⟩ := hasVariable_count hvariables hop hshift
      refine ⟨_, integerCode_stuck_of_not_inFrame hframe.activates himmediate
        (hcount.inFrame hframe) (fun hwide => ?_) _ _⟩
      exact hcount.not_inFrame_of_lt hframe hlow hwide

/-- **An operation on two operands.** -/
theorem integerOp_doesAsVm {op : BinOp} (hframe : ActivatesFunction context T env)
    (hvariables : ∀ v ∈ ins.accesses, context.HasVariable v.1 v.2)
    (hop : ins.bc.integerOp = some (op, ty)) (hdefined : m.Defined ins) (hout : e.out = [])
    (h : Runs (translateOrdinary T.stack ins) e () e') : DoesAsVm context env host ins m e'.out := by
  rw [integerOp_code hop hout h]
  have hty := Opcode.integerOp_isVariable hop
  have hdestination : context.HasVariable ins.argSWord0 ty :=
    hvariables (ins.argSWord0, ty) (by simp [accesses_integerOp hop])
  have hleft : context.HasVariable ins.argSWord1 ty :=
    hvariables (ins.argSWord1, ty) (by simp [accesses_integerOp hop])
  intro regs mem calls hagrees
  obtain ⟨hinFrame, hright⟩ := rightOperand_eq hframe hvariables hop hdefined hagrees
  obtain ⟨v, hv, hvm⟩ := BinOp.evalInt_of_defined hop (hdefined op ty hop).1
  rw [← hagrees.valueOf hframe hleft hty, ← hright] at hv
  obtain ⟨regs', hgoes⟩ := integerCode_goes host (Opcode.integerOp_int hop) hframe.activates
    (hdestination.inFrame hframe) (hleft.inFrame hframe) hinFrame ⟨regs, mem, calls⟩ e.nextReg hv
  exact ⟨_, regs', _, by rw [Machine.exec_integerOp hop, hvm]; rfl, hgoes,
    hagrees.set hframe hdestination hty _⟩

/-! ### Operations on one variable -/

/-- The operation of the code, and its operands. -/
def UnaryOp.operation (op : UnaryOp) (ty : Ty) (r : ℕ) : BinOp × Operand × Operand :=
  match op with
  | .neg => (.sub, .const 0, .reg r)
  | .not => (.xor, (constantInt ty (-1)).op, .reg r)
  | .inc => (.add, .reg r, (constantInt ty 1).op)
  | .dec => (.sub, .reg r, (constantInt ty 1).op)

/-- The code of an operation on one variable. -/
def unaryCode (stack : StackFrame) (ins : BytecodeInstruction) (op : UnaryOp) (ty : Ty) (r : ℕ) :
    List Piece := [
  .instr (.load r ty (stack.slotAddress ins.argSWord0)),
  .instr (.binop (r + 1) (op.operation ty r).1 ty (op.operation ty r).2.1 (op.operation ty r).2.2),
  .instr (.store ty (.reg (r + 1)) (stack.slotAddress ins.argSWord0))]

theorem unaryOp_code {stack : StackFrame} {op : UnaryOp} (hop : ins.bc.unaryOp = some (op, ty))
    (hout : e.out = []) (h : Runs (translateOrdinary stack ins) e () e') :
    e'.out = unaryCode stack ins op ty e.nextReg := by
  unfold Opcode.unaryOp at hop
  split at hop <;> cases hop <;> rename_i hbc <;> rw [translateOrdinary, hbc] at h <;>
    simp [emitNeg, emitBitNot, incrementVariable, Ty.isFloatingPoint] at h <;>
    rw [h.2, EmitState.extend_out, hout] <;> rfl

/-- The constant of an operation. -/
theorem setWidth_constantInt (ty : Ty) (v : ℤ) (regs : Regs) :
    ((constantInt ty v).op.eval env regs).setWidth ty.bits = BitVec.ofInt ty.bits v := by
  rw [constantInt, Operand.eval, Ty.setWidth_setWidth, Bytes.setWidth_ofInt ty.bits_le]

/-- The operation of the code computes what the VM computes. -/
theorem UnaryOp.exec_operation (op : UnaryOp) (hint : ty.isFloatingPoint = false) {r : ℕ}
    {regs : Regs} {mem : Bytes.Mem} {x : BitVec ty.bits}
    (hx : ((Operand.reg r).eval env regs).setWidth ty.bits = x) :
    (Instr.binop (r + 1) (op.operation ty r).1 ty (op.operation ty r).2.1
      (op.operation ty r).2.2).exec env regs mem =
      some (Function.update regs (r + 1) ((op.evalVm x).setWidth 64), mem) := by
  let result (v : BitVec ty.bits) : Option (Regs × Bytes.Mem) :=
    some (Function.update regs (r + 1) (v.setWidth 64), mem)
  cases op with
  | neg =>
      have hzero : ((Operand.const 0).eval env regs).setWidth ty.bits = 0 := BitVec.setWidth_zero _ _
      exact (exec_binop hint hzero hx (r + 1)).trans (congrArg result (BitVec.zero_sub x))
  | not =>
      have hones : BitVec.ofInt ty.bits (-1) ^^^ x = ~~~x := by
        rw [BitVec.ofInt_neg, show BitVec.ofInt ty.bits 1 = BitVec.ofNat ty.bits 1 by simp,
          BitVec.neg_one_eq_allOnes, BitVec.allOnes_xor]
      exact (exec_binop hint (setWidth_constantInt ty (-1) regs) hx (r + 1)).trans
        (congrArg result hones)
  | inc =>
      have hone : x + BitVec.ofInt ty.bits 1 = x + 1 := by simp
      exact (exec_binop hint hx (setWidth_constantInt ty 1 regs) (r + 1)).trans (congrArg result hone)
  | dec =>
      have hone : x - BitVec.ofInt ty.bits 1 = x - 1 := by simp
      exact (exec_binop hint hx (setWidth_constantInt ty 1 regs) (r + 1)).trans (congrArg result hone)

theorem Opcode.unaryOp_isVariable {bc : Opcode} {op : UnaryOp} (h : bc.unaryOp = some (op, ty)) :
    ty.IsVariable ∧ ty.isFloatingPoint = false := by
  unfold Opcode.unaryOp at h
  split at h <;> cases h <;> simp [Ty.IsVariable, Ty.isFloatingPoint]

/-- The result is stored at last. -/
theorem runCode_store_result (hact : Activates T env) {offset : ℤ}
    (hinFrame : T.stack.InFrame offset ty.storeSize) (regs : Regs) (mem : Bytes.Mem)
    (calls : List Request) (r : ℕ) (v : BitVec ty.bits) :
    runCode env host [.instr (.store ty (.reg r) (T.stack.slotAddress offset))]
        ⟨Function.update regs r (v.setWidth 64), mem, calls⟩ =
      .goes ⟨Function.update regs r (v.setWidth 64),
        Bytes.write mem (T.stack.byteAddress env.layout offset) ty.storeSize (v.setWidth 64), calls⟩ :=
  runCode_step (exec_store_result hact hinFrame regs mem r v)

/-- **An operation on one variable.** -/
theorem unaryOp_doesAsVm {op : UnaryOp} (hframe : ActivatesFunction context T env)
    (hvariables : ∀ v ∈ ins.accesses, context.HasVariable v.1 v.2)
    (hop : ins.bc.unaryOp = some (op, ty)) (hout : e.out = [])
    (h : Runs (translateOrdinary T.stack ins) e () e') : DoesAsVm context env host ins m e'.out := by
  rw [unaryOp_code hop hout h]
  obtain ⟨hty, hint⟩ := Opcode.unaryOp_isVariable hop
  have hvariable : context.HasVariable ins.argSWord0 ty :=
    hvariables (ins.argSWord0, ty) (by simp [accesses_unaryOp hop])
  have hinFrame := hvariable.inFrame hframe
  intro regs mem calls hagrees
  have hload := hinFrame.exec_load ty hframe.activates regs mem e.nextReg
  have hvalue := @setWidth_loaded ty T env.layout mem ins.argSWord0
  rw [hagrees.valueOf hframe hvariable hty] at hvalue
  have hloaded : ((Operand.reg e.nextReg).eval env (Function.update regs e.nextReg (ty.truncate
      (Bytes.read mem (T.stack.byteAddress env.layout ins.argSWord0) ty.storeSize)))).setWidth
        ty.bits = (m.value ins.argSWord0 ty).setWidth ty.bits := by
    rw [Operand.eval, Function.update_self, hvalue]
  have hbinop := @UnaryOp.exec_operation env ty op hint _ _ mem _ hloaded
  exact ⟨_, _, _, Machine.exec_unaryOp hop, (runCode_step hload).trans ((runCode_step hbinop).trans
    (runCode_store_result hframe.activates hinFrame _ _ _ _ _)), hagrees.set hframe hvariable hty _⟩

/-! ### Moves -/

/-- The address a value is moved from or to. -/
def MovePlace.address (stack : StackFrame) (ins : BytecodeInstruction) : MovePlace → Operand
  | .first => stack.slotAddress ins.argSWord0
  | .second => stack.slotAddress ins.argSWord1
  | .constant | .register => .frame .valueRegister 0

/-- The constant of an instruction that sets a variable. -/
def movedConstant (ins : BytecodeInstruction) (ty : Ty) : Operand :=
  (constantInt ty (if ty = .i64 then ins.argQWord.toInt else ins.argDWord.toInt)).op

/-- The code of a move. -/
def moveCode (stack : StackFrame) (ins : BytecodeInstruction) (ty : Ty)
    (source destination : MovePlace) (r : ℕ) : List Piece :=
  if source = .constant then
    [.instr (.store ty (movedConstant ins ty) (destination.address stack ins))]
  else [
    .instr (.load r ty (source.address stack ins)),
    .instr (.store ty (.reg r) (destination.address stack ins))]

theorem move_code {stack : StackFrame} {source destination : MovePlace}
    (hmove : ins.bc.move = some (ty, source, destination)) (hout : e.out = [])
    (h : Runs (translateOrdinary stack ins) e () e') :
    e'.out = moveCode stack ins ty source destination e.nextReg := by
  rw [translateOrdinary] at h
  revert hmove h
  cases ins.bc <;> simp only [Opcode.move, Option.some.injEq, Prod.mk.injEq, reduceCtorEq,
    false_imp_iff] <;> rintro ⟨rfl, rfl, rfl⟩ h <;> simp [copyVariable] at h
  case SetV4 | SetV8 | CpyRtoV4 | CpyRtoV8 => rw [h.2, EmitState.extend_out, hout]; rfl
  case CpyVtoV4 | CpyVtoV8 => rw [h.2.2, EmitState.extend_out, hout]; rfl
  case CpyVtoR4 | CpyVtoR8 => rw [h.2, EmitState.extend_out, hout]; rfl

/-- The constant is the one of the VM. -/
theorem movedConstant_eval (hty : ty.IsVariable) (regs : Regs) :
    (movedConstant ins ty).eval env regs = m.moved ins ty .constant := by
  rw [movedConstant, constantInt, Operand.eval, Machine.moved, Bytes.setWidth_ofInt ty.bits_le]
  rcases hty with rfl | rfl
  · exact congrArg (BitVec.setWidth 64) (BitVec.ofInt_toInt (x := ins.argDWord))
  · exact (BitVec.setWidth_eq _).trans (BitVec.ofInt_toInt (x := ins.argQWord))

/-- Of a value that is put somewhere, only the bits of the type matter. -/
theorem Machine.put_truncate (hty : ty.IsVariable) (v : Word) (destination : MovePlace) :
    m.put ins ty (ty.truncate v) destination = m.put ins ty v destination := by
  rcases hty with rfl | rfl
  · have hlow : (Ty.i32.truncate v).setWidth 32 = v.setWidth 32 := Ty.setWidth_truncate .i32 v
    cases destination <;> simp [Machine.put, Machine.set, Machine.setRegister, hlow]
  · rw [Ty.truncate, show Ty.i64.bits = 64 from rfl, BitVec.setWidth_eq, BitVec.setWidth_eq]

/-- A value is loaded as the VM has it. -/
theorem exec_load_moved {source : MovePlace} {mem : Bytes.Mem}
    (hframe : ActivatesFunction context T env) (hty : ty.IsVariable)
    (hvariables : ∀ v ∈ ins.movedVariable ty source, context.HasVariable v.1 v.2)
    (hsource : source ≠ .constant) (h : m.Agrees context env.layout mem) (regs : Regs) (r : ℕ) :
    (Instr.load r ty (source.address T.stack ins)).exec env regs mem =
      some (Function.update regs r (ty.truncate (m.moved ins ty source)), mem) := by
  cases source with
  | constant => exact absurd rfl hsource
  | register =>
      have hregister := truncate_read (by rcases hty with rfl | rfl <;> rfl) ty.storeSize_le mem
        (env.layout.address .valueRegister)
      rw [h.valueRegister, Ty.setWidth_truncate] at hregister
      rw [MovePlace.address,
        exec_load_alloca ty (hframe.activates.valueRegister ▸ ty.storeSize_le), Ty.truncate,
        hregister]
      rfl
  | first =>
      have hvariable : context.HasVariable ins.argSWord0 ty :=
        hvariables _ (List.mem_singleton_self _)
      rw [MovePlace.address, (hvariable.inFrame hframe).exec_load ty hframe.activates,
        h.read hframe hvariable hty]
      rfl
  | second =>
      have hvariable : context.HasVariable ins.argSWord1 ty :=
        hvariables _ (List.mem_singleton_self _)
      rw [MovePlace.address, (hvariable.inFrame hframe).exec_load ty hframe.activates,
        h.read hframe hvariable hty]
      rfl

/-- A value is stored where the VM puts it. -/
theorem exec_store_moved {destination : MovePlace} {mem : Bytes.Mem}
    (hframe : ActivatesFunction context T env) (hty : ty.IsVariable)
    (hvariables : ∀ v ∈ ins.movedVariable ty destination, context.HasVariable v.1 v.2)
    (hdestination : destination ≠ .constant) (h : m.Agrees context env.layout mem) {regs : Regs}
    {value : Operand} {v : Word} (hv : ty.truncate (value.eval env regs) = ty.truncate v) :
    ∃ mem', (Instr.store ty value (destination.address T.stack ins)).exec env regs mem =
        some (regs, mem') ∧
      (m.put ins ty v destination).Agrees context env.layout mem' := by
  rw [← Machine.put_truncate hty]
  cases destination with
  | constant => exact absurd rfl hdestination
  | register =>
      refine ⟨_, exec_store_alloca ty (hframe.activates.valueRegister ▸ ty.storeSize_le) regs mem
        value, ?_⟩
      rw [hv]
      exact h.setRegister hframe hty _
  | first =>
      have hvariable : context.HasVariable ins.argSWord0 ty :=
        hvariables _ (List.mem_singleton_self _)
      refine ⟨_, (hvariable.inFrame hframe).exec_store ty hframe.activates regs mem value, ?_⟩
      rw [hv]
      exact h.set hframe hvariable hty _
  | second =>
      have hvariable : context.HasVariable ins.argSWord1 ty :=
        hvariables _ (List.mem_singleton_self _)
      refine ⟨_, (hvariable.inFrame hframe).exec_store ty hframe.activates regs mem value, ?_⟩
      rw [hv]
      exact h.set hframe hvariable hty _

theorem Opcode.move_isVariable {bc : Opcode} {source destination : MovePlace}
    (h : bc.move = some (ty, source, destination)) : ty.IsVariable ∧ destination ≠ .constant := by
  unfold Opcode.move at h
  split at h <;> cases h <;> simp [Ty.IsVariable]

/-- **A move.** -/
theorem move_doesAsVm {source destination : MovePlace} (hframe : ActivatesFunction context T env)
    (hvariables : ∀ v ∈ ins.accesses, context.HasVariable v.1 v.2)
    (hmove : ins.bc.move = some (ty, source, destination)) (hout : e.out = [])
    (h : Runs (translateOrdinary T.stack ins) e () e') : DoesAsVm context env host ins m e'.out := by
  rw [move_code hmove hout h, moveCode]
  obtain ⟨hty, hdestination⟩ := Opcode.move_isVariable hmove
  rw [accesses_move hmove] at hvariables
  have hto := fun v hv => hvariables v (List.mem_append_right _ hv)
  intro regs mem calls hagrees
  split
  · subst source
    obtain ⟨mem', hstore, hagrees'⟩ := exec_store_moved hframe hty hto hdestination hagrees
      (congrArg ty.truncate (@movedConstant_eval env ins m ty hty regs))
    exact ⟨_, regs, mem', Machine.exec_move hmove, runCode_step hstore, hagrees'⟩
  · rename_i hsource
    have hload := exec_load_moved hframe hty (fun v hv => hvariables v (List.mem_append_left _ hv))
      hsource hagrees regs e.nextReg
    have hloaded : ty.truncate ((Operand.reg e.nextReg).eval env (Function.update regs e.nextReg
        (ty.truncate (m.moved ins ty source)))) = ty.truncate (m.moved ins ty source) := by
      rw [Operand.eval, Function.update_self, Ty.truncate, Ty.setWidth_truncate]
      rfl
    obtain ⟨mem', hstore, hagrees'⟩ := exec_store_moved hframe hty hto hdestination hagrees hloaded
    exact ⟨_, _, mem', Machine.exec_move hmove, (runCode_step hload).trans (runCode_step hstore),
      hagrees'⟩

/-! ### Conversions, comparisons and tests -/

/-- **A conversion between the two widths.** -/
theorem conversion_doesAsVm (hframe : ActivatesFunction context T env)
    (hvariables : ∀ v ∈ ins.accesses, context.HasVariable v.1 v.2)
    (hwidth : ins.bc.isWidthConversion = true) (hout : e.out = [])
    (h : Runs (translateOrdinary T.stack ins) e () e') : DoesAsVm context env host ins m e'.out := by
  obtain ⟨op, src, dst, hop, hsrc, hdst, hsource⟩ : ∃ op src dst,
      ins.bc.conversion = some (op, src, dst) ∧ src.IsVariable ∧ dst.IsVariable ∧
        ins.vmSource = ins.argSWord1 := by
    rw [BytecodeInstruction.vmSource]
    revert hwidth
    cases ins.bc <;> simp [Opcode.isWidthConversion, Opcode.conversion, Ty.IsVariable]
  obtain ⟨-, -, hcode⟩ := conversion_code hop hout h
  rw [accesses_conversion hwidth hop] at hvariables
  have hdestination : context.HasVariable ins.argSWord0 dst := hvariables _ List.mem_cons_self
  have hread : context.HasVariable ins.argSWord1 src :=
    hvariables _ (List.mem_cons_of_mem _ (List.mem_singleton_self _))
  rw [hcode]
  intro regs mem calls hagrees
  obtain ⟨regs', hgoes⟩ := castCode_goes hop hframe.activates
    (hsource.symm ▸ hread.inFrame hframe) (hdestination.inFrame hframe) host ⟨regs, mem, calls⟩
    e.nextReg
  rw [hsource, hagrees.read hframe hread hsrc] at hgoes
  exact ⟨_, regs', _, Machine.exec_conversion hwidth hop, hgoes,
    hagrees.set hframe hdestination hdst _⟩

theorem Opcode.isIntegerComparison_iff {bc : Opcode} : bc.isIntegerComparison = true ↔
    ∃ ty isSigned immediate, bc.comparison = some (ty, isSigned, immediate) ∧ ty.IsVariable ∧
      ty.isFloatingPoint = false := by
  rw [isIntegerComparison]
  cases bc <;> simp [Opcode.comparison, Ty.isFloatingPoint, Ty.IsVariable]

/-- The order of integers is the one of the VM. -/
theorem order_compare (hint : ty.isFloatingPoint = false) (isSigned : Bool) (x y : BitVec ty.bits) :
    threeWay (env.order ty isSigned x y).1 (env.order ty isSigned x y).2 =
      Machine.compare isSigned x y := by
  rw [Env.order, hint, if_neg Bool.false_ne_true, Machine.compare]
  cases isSigned <;> rfl

/-- **A comparison.** -/
theorem comparison_doesAsVm (hframe : ActivatesFunction context T env)
    (hvariables : ∀ v ∈ ins.accesses, context.HasVariable v.1 v.2)
    (hbc : ins.bc.isIntegerComparison = true) (hout : e.out = [])
    (h : Runs (translateOrdinary T.stack ins) e () e') : DoesAsVm context env host ins m e'.out := by
  obtain ⟨ty, isSigned, immediate, hcomparison, hty, hint⟩ := Opcode.isIntegerComparison_iff.mp hbc
  rw [comparison_code hcomparison hout h]
  rw [accesses_comparison hcomparison] at hvariables
  have hleft : context.HasVariable ins.argSWord0 ty := hvariables _ List.mem_cons_self
  have hright : immediate = false → context.HasVariable ins.argSWord1 ty := by
    rintro rfl
    exact hvariables _ (List.mem_cons_of_mem _ (List.mem_singleton_self _))
  intro regs mem calls hagrees
  have hcompared : comparedOperand T.stack env.layout mem ins ty immediate =
      m.comparedOperand ins ty immediate := by
    rw [comparedOperand, Machine.comparedOperand]
    cases immediate with
    | true => rfl
    | false => exact hagrees.valueOf hframe (hright rfl) hty
  obtain ⟨regs', hgoes⟩ := @comparisonCode_runs ins ty isSigned immediate T env host
    hframe.activates (hleft.inFrame hframe) (fun himmediate => (hright himmediate).inFrame hframe)
    ⟨regs, mem, calls⟩ e.nextReg _ _ (hagrees.valueOf hframe hleft hty) hcompared
  rw [order_compare hint] at hgoes
  exact ⟨_, regs', _, Machine.exec_comparison hcomparison, hgoes,
    hagrees.setRegister hframe (.inl rfl) _⟩

/-- **A test.** -/
theorem test_doesAsVm {pred : Pred} (hframe : ActivatesFunction context T env)
    (hbc : ins.bc.test = some pred) (hout : e.out = [])
    (h : Runs (translateOrdinary T.stack ins) e () e') : DoesAsVm context env host ins m e'.out := by
  rw [test_code hbc hout h]
  intro regs mem calls hagrees
  obtain ⟨regs', hgoes⟩ := @testCode_runs pred T env host hframe.activates ⟨regs, mem, calls⟩ e.nextReg
  rw [hagrees.valueRegister] at hgoes
  exact ⟨_, regs', _, Machine.exec_test hbc, hgoes, hagrees.setRegister hframe (.inr rfl) _⟩

/-- An instruction that does nothing. -/
theorem idle_doesAsVm (hbc : ins.bc.isIdle = true) (hout : e.out = [])
    (h : Runs (translateOrdinary T.stack ins) e () e') : DoesAsVm context env host ins m e'.out := by
  have he : e' = e := by
    rw [translateOrdinary] at h
    revert hbc h
    cases ins.bc <;> simp [Opcode.isIdle]
  rw [he, hout]
  intro regs mem calls hagrees
  exact ⟨m, regs, mem, Machine.exec_idle hbc, rfl, hagrees⟩

/-- **The code of an instruction that ends no block does what the VM does**, where LLVM defines the
operation. -/
theorem translateOrdinary_doesAsVm (hframe : ActivatesFunction context T env)
    (hfragment : ins.bc.inFragment = true) (hordinary : ins.bc.endsBlock = false)
    (hvariables : ∀ v ∈ ins.accesses, context.HasVariable v.1 v.2) (hdefined : m.Defined ins)
    (hout : e.out = []) (h : Runs (translateOrdinary T.stack ins) e () e') :
    DoesAsVm context env host ins m e'.out := by
  rcases Opcode.inFragment_cases hfragment with hop | hmove | hunary | hwidth | hcomparison | htest |
    hidle | hjump | hjmp | hret
  · obtain ⟨⟨op, ty⟩, hop⟩ := Option.isSome_iff_exists.mp hop
    exact integerOp_doesAsVm hframe hvariables hop hdefined hout h
  · obtain ⟨⟨ty, source, destination⟩, hmove⟩ := Option.isSome_iff_exists.mp hmove
    exact move_doesAsVm hframe hvariables hmove hout h
  · obtain ⟨⟨op, ty⟩, hunary⟩ := Option.isSome_iff_exists.mp hunary
    exact unaryOp_doesAsVm hframe hvariables hunary hout h
  · exact conversion_doesAsVm hframe hvariables hwidth hout h
  · exact comparison_doesAsVm hframe hvariables hcomparison hout h
  · obtain ⟨pred, htest⟩ := Option.isSome_iff_exists.mp htest
    exact test_doesAsVm hframe htest hout h
  · exact idle_doesAsVm hidle hout h
  · rw [Opcode.endsBlock, hjump, Bool.or_true] at hordinary
    exact Bool.noConfusion hordinary
  · rw [hjmp] at hordinary
    exact Bool.noConfusion hordinary
  · rw [hret] at hordinary
    exact Bool.noConfusion hordinary

end Families

end Asllvm
