import Asllvm.BytecodeCfg
import Asllvm.Activation

/-!
# Integer Arithmetic

`emit_binop` translates every integer operation to the LLVM instruction of that name, and nothing
else. LLVM defines no result for a zero divisor, for the smallest integer divided by `-1`, or for a
shift by the width of its type or more; the AngelScript VM raises an exception for the divisions,
and takes the count of a shift modulo the width. The count of a shift of `64` bits is a variable of
`32` bits in the bytecode, and loaded as one of `64`.

* `BinOp.evalVm` — what the AngelScript VM computes.
* `BinOp.Defined` — where LLVM defines the result.

## Main results

* `CodeOf.integerOp_runs` — what the code of an integer operation does.
* `integerOps_defined_iff` — it does what the VM does iff LLVM defines the result.
-/

open StateExcept

namespace Asllvm

/-- The operation of an integer instruction that `emit_binop` translates, and the type it is
computed at. -/
def Opcode.integerOp : Opcode → Option (BinOp × Ty)
  | .ADDi | .ADDIi => some (.add, .i32)
  | .SUBi | .SUBIi => some (.sub, .i32)
  | .MULi | .MULIi => some (.mul, .i32)
  | .DIVi => some (.sdiv, .i32)
  | .MODi => some (.srem, .i32)
  | .DIVu => some (.udiv, .i32)
  | .MODu => some (.urem, .i32)
  | .BAND => some (.and, .i32)
  | .BOR => some (.or, .i32)
  | .BXOR => some (.xor, .i32)
  | .BSLL => some (.shl, .i32)
  | .BSRL => some (.lshr, .i32)
  | .BSRA => some (.ashr, .i32)
  | .ADDi64 => some (.add, .i64)
  | .SUBi64 => some (.sub, .i64)
  | .MULi64 => some (.mul, .i64)
  | .DIVi64 => some (.sdiv, .i64)
  | .MODi64 => some (.srem, .i64)
  | .DIVu64 => some (.udiv, .i64)
  | .MODu64 => some (.urem, .i64)
  | .BAND64 => some (.and, .i64)
  | .BOR64 => some (.or, .i64)
  | .BXOR64 => some (.xor, .i64)
  | .BSLL64 => some (.shl, .i64)
  | .BSRL64 => some (.lshr, .i64)
  | .BSRA64 => some (.ashr, .i64)
  | _ => none

/-- The second operand is part of the instruction. -/
def Opcode.hasImmediate : Opcode → Bool
  | .ADDIi | .SUBIi | .MULIi => true
  | _ => false

/-- A shift, whose second operand is a count. -/
def BinOp.isShift : BinOp → Bool
  | .shl | .lshr | .ashr => true
  | _ => false

/-- What the AngelScript VM computes, unless it raises an exception: shifts are those of x86-64, by
the count modulo the width. -/
def BinOp.evalVm (op : BinOp) {w : ℕ} (x y : BitVec w) : Option (BitVec w) :=
  match op with
  | .add => some (x + y)
  | .sub => some (x - y)
  | .mul => some (x * y)
  | .and => some (x &&& y)
  | .or => some (x ||| y)
  | .xor => some (x ^^^ y)
  | .sdiv => if y = 0 ∨ x = BitVec.intMin w ∧ y = -1 then none else some (x.sdiv y)
  | .srem => if y = 0 ∨ x = BitVec.intMin w ∧ y = -1 then none else some (x.srem y)
  | .udiv => if y = 0 then none else some (x / y)
  | .urem => if y = 0 then none else some (x % y)
  | .shl => some (x <<< (y.toNat % w))
  | .lshr => some (x >>> (y.toNat % w))
  | .ashr => some (x.sshiftRight (y.toNat % w))
  | .fadd | .fsub | .fmul | .fdiv | .frem => none

/-- **Where LLVM defines the result** of an integer operation. -/
def BinOp.Defined (op : BinOp) {w : ℕ} (x y : BitVec w) : Prop :=
  match op with
  | .sdiv | .srem => y ≠ 0 ∧ ¬ (x = BitVec.intMin w ∧ y = -1)
  | .udiv | .urem => y ≠ 0
  | .shl | .lshr | .ashr => y.toNat < w
  | _ => True

section BinOp

variable {op : BinOp} {ty : Ty} {bc : Opcode} {w : ℕ} {x y : BitVec w}

/-- **What the table of operations has**: operations on integers, of instructions that do not end a
block. -/
theorem Opcode.integerOp_cases (h : bc.integerOp = some (op, ty)) :
    bc.endsBlock = false ∧ (ty = .i32 ∨ ty = .i64) ∧
      op ≠ .fadd ∧ op ≠ .fsub ∧ op ≠ .fmul ∧ op ≠ .fdiv ∧ op ≠ .frem := by
  unfold Opcode.integerOp at h
  split at h <;> cases h <;> exact ⟨rfl, by decide, by decide⟩

theorem Opcode.integerOp_ty (h : bc.integerOp = some (op, ty)) : ty = .i32 ∨ ty = .i64 :=
  (Opcode.integerOp_cases h).2.1

theorem Opcode.integerOp_int (h : bc.integerOp = some (op, ty)) : ty.isFloatingPoint = false := by
  rcases Opcode.integerOp_ty h with rfl | rfl
  · rfl
  · rfl

theorem Opcode.integerOp_ordinary (h : bc.integerOp = some (op, ty)) : bc.endsBlock = false :=
  (Opcode.integerOp_cases h).1

/-- The operations of the instructions are on integers. -/
theorem Opcode.integerOp_integer (h : bc.integerOp = some (op, ty)) :
    op ≠ .fadd ∧ op ≠ .fsub ∧ op ≠ .fmul ∧ op ≠ .fdiv ∧ op ≠ .frem :=
  (Opcode.integerOp_cases h).2.2

/-- **Where LLVM defines the result, it is that of the VM.** -/
theorem BinOp.evalInt_of_defined (hop : bc.integerOp = some (op, ty)) (h : op.Defined x y) :
    ∃ v, op.evalInt x y = some v ∧ op.evalVm x y = some v := by
  obtain ⟨hadd, hsub, hmul, hdiv, hrem⟩ := Opcode.integerOp_integer hop
  cases op with
  | sdiv =>
      rw [Defined, ne_eq, ← not_or] at h
      exact ⟨_, if_neg h, if_neg h⟩
  | srem =>
      rw [Defined, ne_eq, ← not_or] at h
      exact ⟨_, if_neg h, if_neg h⟩
  | udiv => exact ⟨_, if_neg h, if_neg h⟩
  | urem => exact ⟨_, if_neg h, if_neg h⟩
  | shl | lshr | ashr =>
      rw [Defined] at h
      rw [evalInt, if_neg (Nat.not_le.mpr h), evalVm, Nat.mod_eq_of_lt h]
      exact ⟨_, rfl, rfl⟩
  | add | sub | mul | and | or | xor => exact ⟨_, rfl, rfl⟩
  | fadd | fsub | fmul | fdiv | frem => contradiction

theorem BinOp.evalInt_of_not_defined (h : ¬ op.Defined x y) : op.evalInt x y = none := by
  cases op with
  | sdiv =>
      rw [Defined, ne_eq, ← not_or, not_not] at h
      exact if_pos h
  | srem =>
      rw [Defined, ne_eq, ← not_or, not_not] at h
      exact if_pos h
  | udiv => exact if_pos (not_not.mp h)
  | urem => exact if_pos (not_not.mp h)
  | shl | lshr | ashr =>
      rw [Defined, Nat.not_lt] at h
      rw [evalInt, if_pos h]
  | _ => exact absurd trivial h

end BinOp

/-! ### The code of an integer operation -/

/-- The code of `emit_binop`, for two variables or a variable and a constant. -/
def integerCode (stack : StackFrame) (ins : BytecodeInstruction) (op : BinOp) (ty : Ty) (r : ℕ) :
    List Piece :=
  if ins.bc.hasImmediate then [
    .instr (.load r ty (stack.slotAddress ins.argSWord1)),
    .instr (.binop (r + 1) op ty (.reg r) (constantInt ty (ins.argInt 1)).op),
    .instr (.store ty (.reg (r + 1)) (stack.slotAddress ins.argSWord0))]
  else [
    .instr (.load r ty (stack.slotAddress ins.argSWord2)),
    .instr (.load (r + 1) ty (stack.slotAddress ins.argSWord1)),
    .instr (.binop (r + 2) op ty (.reg (r + 1)) (.reg r)),
    .instr (.store ty (.reg (r + 2)) (stack.slotAddress ins.argSWord0))]

section Code

variable {stack : StackFrame} {ins : BytecodeInstruction} {s s' : EmitState} {op : BinOp} {ty : Ty}

theorem translateOrdinary_integerOp (hop : ins.bc.integerOp = some (op, ty)) :
    translateOrdinary stack ins = if ins.bc.hasImmediate then
      emitBinopWith stack ins op (constantInt ty (ins.argInt 1)) else emitBinop stack ins op ty := by
  unfold Opcode.integerOp at hop
  split at hop <;> cases hop <;> rename_i hbc <;> rw [translateOrdinary, hbc] <;> rfl

/-- **The code of an integer operation.** -/
theorem integerOp_code (hop : ins.bc.integerOp = some (op, ty)) (hs : s.out = [])
    (h : Runs (translateOrdinary stack ins) s () s') :
    s'.out = integerCode stack ins op ty s.nextReg := by
  rw [translateOrdinary_integerOp hop] at h
  rw [integerCode]
  by_cases himmediate : ins.bc.hasImmediate = true
  · rw [if_pos himmediate] at h ⊢
    simp [emitBinopWith, emitBinopOf] at h
    rw [h.2.2, EmitState.extend_out, hs]
    rfl
  · rw [if_neg himmediate] at h ⊢
    simp [emitBinop, emitBinopWith, emitBinopOf] at h
    rw [h.2.2.2, EmitState.extend_out, hs]
    rfl

variable {T : Translation} {env : Env} {host : Host}

/-- The second operand, as the code finds it. -/
def rightOperand (stack : StackFrame) (layout : FrameLayout) (mem : Bytes.Mem)
    (ins : BytecodeInstruction) (ty : Ty) : BitVec ty.bits :=
  if ins.bc.hasImmediate then BitVec.ofInt ty.bits (ins.argInt 1)
  else stack.valueOf layout mem ins.argSWord2 ty

/-- An operation on a loaded value. -/
theorem exec_binop {x y : BitVec ty.bits} {regs : Regs} {mem : Bytes.Mem} {lhs rhs : Operand}
    (hint : ty.isFloatingPoint = false) (hx : (lhs.eval env regs).setWidth ty.bits = x)
    (hy : (rhs.eval env regs).setWidth ty.bits = y) (r : ℕ) :
    (Instr.binop r op ty lhs rhs).exec env regs mem = (op.evalInt x y).map fun v =>
      (Function.update regs r (v.setWidth 64), mem) := by
  rw [Instr.exec, BinOp.eval, hint, if_neg Bool.false_ne_true, hx, hy, Option.map_map]
  rfl

/-- The value of a variable is what a load of it leaves in a register. -/
theorem setWidth_loaded (layout : FrameLayout) (mem : Bytes.Mem) (offset : ℤ) :
    (ty.truncate (Bytes.read mem (T.stack.byteAddress layout offset) ty.storeSize)).setWidth
      ty.bits = T.stack.valueOf layout mem offset ty := by
  rw [Ty.setWidth_truncate, StackFrame.valueOf]

/-- Storing a result. -/
theorem exec_store_result (hact : Activates T env) {offset : ℤ}
    (hframe : T.stack.InFrame offset ty.storeSize) (regs : Regs) (mem : Bytes.Mem) (r : ℕ)
    (v : BitVec ty.bits) :
    (Instr.store ty (.reg r) (T.stack.slotAddress offset)).exec env
        (Function.update regs r (v.setWidth 64)) mem = some (Function.update regs r (v.setWidth 64),
      Bytes.write mem (T.stack.byteAddress env.layout offset) ty.storeSize (v.setWidth 64)) := by
  rw [hframe.exec_store ty hact, Operand.eval, Function.update_self, ty.truncate_setWidth]

/-- **What the code does, up to the operation**: the operands are loaded. -/
theorem integerCode_loads (op : BinOp) (host : Host) (hint : ty.isFloatingPoint = false) (hact : Activates T env)
    (hlhs : T.stack.InFrame ins.argSWord1 ty.storeSize)
    (hrhs : ins.bc.hasImmediate = false → T.stack.InFrame ins.argSWord2 ty.storeSize)
    (p : Progress) (r : ℕ) :
    ∃ regs r' lhs rhs, runCode env host (integerCode T.stack ins op ty r) p =
        runCode env host [.instr (.binop r' op ty lhs rhs),
          .instr (.store ty (.reg r') (T.stack.slotAddress ins.argSWord0))] ⟨regs, p.world⟩ ∧
      (Instr.binop r' op ty lhs rhs).exec env regs p.world.mem =
        (op.evalInt (T.stack.valueOf env.layout p.world.mem ins.argSWord1 ty)
          (rightOperand T.stack env.layout p.world.mem ins ty)).map fun v =>
            (Function.update regs r' (v.setWidth 64), p.world.mem) := by
  rw [integerCode, rightOperand]
  by_cases himmediate : ins.bc.hasImmediate = true
  · rw [if_pos himmediate, if_pos himmediate]
    refine ⟨_, r + 1, .reg r, _, runCode_step (hlhs.exec_load ty hact p.regs p.world.mem r),
      exec_binop hint ?_ ?_ _⟩
    · rw [Operand.eval, Function.update_self, setWidth_loaded]
    · rw [constantInt, Operand.eval, Ty.setWidth_setWidth, Bytes.setWidth_ofInt ty.bits_le]
  · rw [Bool.not_eq_true] at himmediate
    rw [himmediate, if_neg Bool.false_ne_true, if_neg Bool.false_ne_true]
    have hfirst := (hrhs himmediate).exec_load ty hact p.regs p.world.mem r
    refine ⟨_, r + 2, .reg (r + 1), .reg r, (runCode_step hfirst).trans
      (runCode_step (hlhs.exec_load ty hact _ p.world.mem (r + 1))), exec_binop hint ?_ ?_ _⟩
    · rw [Operand.eval, Function.update_self, setWidth_loaded]
    · rw [Operand.eval, Function.update_of_ne (by omega), Function.update_self, setWidth_loaded]

/-- **What the code does where LLVM defines the result.** -/
theorem integerCode_goes (host : Host) {v : BitVec ty.bits} (hint : ty.isFloatingPoint = false)
    (hact : Activates T env) (hdest : T.stack.InFrame ins.argSWord0 ty.storeSize)
    (hlhs : T.stack.InFrame ins.argSWord1 ty.storeSize)
    (hrhs : ins.bc.hasImmediate = false → T.stack.InFrame ins.argSWord2 ty.storeSize)
    (p : Progress) (r : ℕ)
    (hv : op.evalInt (T.stack.valueOf env.layout p.world.mem ins.argSWord1 ty)
      (rightOperand T.stack env.layout p.world.mem ins ty) = some v) :
    ∃ regs, runCode env host (integerCode T.stack ins op ty r) p = .goes ⟨regs,
      Bytes.write p.world.mem (T.stack.byteAddress env.layout ins.argSWord0) ty.storeSize
        (v.setWidth 64), p.world.calls⟩ := by
  obtain ⟨regs, r', lhs, rhs, hcode, hexec⟩ := integerCode_loads op host hint hact hlhs hrhs p r
  rw [hv, Option.map_some] at hexec
  refine ⟨Function.update regs r' (v.setWidth 64), ?_⟩
  rw [hcode, runCode_step hexec, runCode_step (exec_store_result hact hdest _ _ _ _)]
  rfl

/-- **What the code does where LLVM does not define the result.** -/
theorem integerCode_stuck (host : Host) (hint : ty.isFloatingPoint = false) (hact : Activates T env)
    (hlhs : T.stack.InFrame ins.argSWord1 ty.storeSize)
    (hrhs : ins.bc.hasImmediate = false → T.stack.InFrame ins.argSWord2 ty.storeSize)
    (p : Progress) (r : ℕ)
    (hv : op.evalInt (T.stack.valueOf env.layout p.world.mem ins.argSWord1 ty)
      (rightOperand T.stack env.layout p.world.mem ins ty) = none) :
    ∃ regs, runCode env host (integerCode T.stack ins op ty r) p = .stuck ⟨regs, p.world⟩ := by
  obtain ⟨regs, r', lhs, rhs, hcode, hexec⟩ := integerCode_loads op host hint hact hlhs hrhs p r
  rw [hv, Option.map_none] at hexec
  refine ⟨regs, ?_⟩
  rw [hcode, runCode_stuck (by simp) hexec]

/-- The second operand is not a variable of the type. -/
theorem integerCode_stuck_of_not_inFrame {m : ℕ} (hact : Activates T env)
    (himmediate : ins.bc.hasImmediate = false) (hcount : T.stack.InFrame ins.argSWord2 m)
    (hrhs : ¬ T.stack.InFrame ins.argSWord2 ty.storeSize) (p : Progress) (r : ℕ) :
    runCode env host (integerCode T.stack ins op ty r) p = .stuck p := by
  rw [integerCode, himmediate, if_neg Bool.false_ne_true]
  refine runCode_stuck (by simp) ?_
  rw [Instr.exec, if_neg]
  rwa [hcount.accessible_iff hact]

end Code

/-! ### Against the AngelScript VM -/

/-- The second operand, as the VM finds it: the count of a shift is a dword. -/
def vmRightOperand (stack : StackFrame) (layout : FrameLayout) (mem : Bytes.Mem)
    (ins : BytecodeInstruction) (op : BinOp) (ty : Ty) : BitVec ty.bits :=
  if op.isShift then (stack.valueOf layout mem ins.argSWord2 .i32).setWidth ty.bits
  else rightOperand stack layout mem ins ty

/-- **An integer instruction does what the VM does**: it stores the result in its variable, or
leaves with an exception and the variable unchanged. -/
def ComputesAsVm (T : Translation) (ins : BytecodeInstruction) (op : BinOp) (ty : Ty)
    (ps : List Piece) (q : Position) (env : Env) (host : Host) (calls : List Request)
    (s : LocalState) : Prop :=
  match op.evalVm (T.stack.valueOf env.layout s.mem ins.argSWord1 ty)
    (vmRightOperand T.stack env.layout s.mem ins op ty) with
  | some v => ∃ regs mem, mem = Bytes.write s.mem
        (T.stack.byteAddress env.layout ins.argSWord0) ty.storeSize (v.setWidth 64) ∧
      runCode env host ps ⟨s.regs, s.mem, calls⟩ = .goes ⟨regs, mem, calls⟩ ∧
      Reaches env host (fun _ => True) calls s calls ⟨q, regs, mem, some ins.offset⟩
  | none => ∃ state p, runCode env host ps ⟨s.regs, s.mem, calls⟩ = .leaves state p ∧
      Returns env host (fun _ => True) calls s state p.world.calls p.world.mem ∧
      state ≠ VmState.Ok.word ∧
      T.stack.valueOf env.layout p.world.mem ins.argSWord0 ty =
        T.stack.valueOf env.layout s.mem ins.argSWord0 ty

/-- The code finds its second operand in a variable of the type, and **LLVM defines the result**. -/
def DefinedOperands (T : Translation) (ins : BytecodeInstruction) (op : BinOp) (ty : Ty) (env : Env)
    (mem : Bytes.Mem) : Prop :=
  (ins.bc.hasImmediate = false → T.stack.InFrame ins.argSWord2 ty.storeSize) ∧
    op.Defined (T.stack.valueOf env.layout mem ins.argSWord1 ty)
      (rightOperand T.stack env.layout mem ins ty)

section IntegerOps

variable {context : FunctionContext} {bytecode : List BytecodeInstruction}
  {ins : BytecodeInstruction} {T : Translation} {sp : ℤ} {ps : List Piece} {p q : Position}
  {op : BinOp} {ty : Ty} {env : Env}

/-- The count of a shift that is defined is a dword, although it is loaded at the width of the
shift. -/
theorem vmRightOperand_eq (hop : ins.bc.integerOp = some (op, ty)) {mem : Bytes.Mem}
    (h : DefinedOperands T ins op ty env mem) :
    vmRightOperand T.stack env.layout mem ins op ty = rightOperand T.stack env.layout mem ins ty := by
  rw [vmRightOperand]
  by_cases hshift : op.isShift = true
  · have himmediate : ins.bc.hasImmediate = false := by
      unfold Opcode.integerOp at hop
      split at hop <;> cases hop <;> rename_i hbc <;>
        first | exact Bool.noConfusion hshift | (rw [hbc]; rfl)
    have hcount : (rightOperand T.stack env.layout mem ins ty).toNat < ty.bits := by
      have hdefined := h.2
      cases op with
      | shl | lshr | ashr => exact hdefined
      | _ => exact absurd hshift (by decide)
    rw [rightOperand, himmediate, if_neg Bool.false_ne_true] at hcount ⊢
    rw [if_pos hshift]
    rw [StackFrame.valueOf] at hcount
    rw [StackFrame.valueOf, StackFrame.valueOf]
    rcases Opcode.integerOp_ty hop with rfl | rfl
    · exact BitVec.setWidth_eq _
    · have hbits : Ty.i32.bits = 8 * Ty.i32.storeSize := rfl
      have hlow := truncate_read hbits (by decide) mem (T.stack.byteAddress env.layout ins.argSWord2)
      rw [Ty.setWidth_truncate] at hlow
      rw [hlow]
      apply BitVec.eq_of_toNat_eq
      have hsize : Ty.i64.storeSize = 8 := rfl
      simp only [hsize, Ty.bits, BitVec.toNat_setWidth] at hcount ⊢
      omega
  · rw [if_neg hshift]

/-- **Where LLVM does not define the result, the code does nothing the VM does.** -/
theorem CodeOf.not_computesAsVm (hcode : CodeOf context T bytecode ins sp ps p q)
    (hop : ins.bc.integerOp = some (op, ty)) (hact : Activates T env)
    (hlhs : T.stack.InFrame ins.argSWord1 ty.storeSize)
    (hrhs : ins.bc.hasImmediate = false →
      T.stack.InFrame ins.argSWord2 (if op.isShift then 4 else ty.storeSize))
    {host : Host} {calls : List Request} {s : LocalState}
    (hundefined : ¬ DefinedOperands T ins op ty env s.mem) :
    ¬ ComputesAsVm T ins op ty ps q env host calls s := by
  obtain ⟨e, e', -, hout, rfl, hruns⟩ := hcode.ordinary (Opcode.integerOp_ordinary hop)
  rw [integerOp_code hop hout hruns]
  -- the code comes to something LLVM does not define
  have hstuck : ∃ p', runCode env host (integerCode T.stack ins op ty e.nextReg)
      ⟨s.regs, s.mem, calls⟩ = .stuck p' := by
    by_cases hframe : ins.bc.hasImmediate = false → T.stack.InFrame ins.argSWord2 ty.storeSize
    · have hnone := BinOp.evalInt_of_not_defined fun h => hundefined ⟨hframe, h⟩
      obtain ⟨regs, hcode⟩ := integerCode_stuck host (Opcode.integerOp_int hop) hact hlhs hframe
        ⟨s.regs, s.mem, calls⟩ e.nextReg hnone
      exact ⟨_, hcode⟩
    · obtain ⟨himmediate, hframe⟩ := Classical.not_imp.mp hframe
      exact ⟨_, integerCode_stuck_of_not_inFrame hact himmediate (hrhs himmediate) hframe _ _⟩
  obtain ⟨p', hstuck⟩ := hstuck
  intro hcomputes
  rw [ComputesAsVm] at hcomputes
  split at hcomputes
  · obtain ⟨regs, mem, -, hgoes, -⟩ := hcomputes
    exact CodeResult.noConfusion (hstuck.symm.trans hgoes)
  · obtain ⟨state, p', hleaves, -⟩ := hcomputes
    exact CodeResult.noConfusion (hstuck.symm.trans hleaves)

/-- **When integer instructions do what the AngelScript VM does**, for all operands: iff the count of
a shift of 64 bits is a variable of 64 bits, and LLVM defines the result. -/
theorem integerOps_defined_iff (hcode : CodeOf context T bytecode ins sp ps p q)
    (hop : ins.bc.integerOp = some (op, ty)) (hact : Activates T env)
    (hdest : T.stack.InFrame ins.argSWord0 ty.storeSize)
    (hlhs : T.stack.InFrame ins.argSWord1 ty.storeSize)
    (hrhs : ins.bc.hasImmediate = false →
      T.stack.InFrame ins.argSWord2 (if op.isShift then 4 else ty.storeSize))
    (host : Host) (calls : List Request) {s : LocalState} (hs : s.position = p) :
    ComputesAsVm T ins op ty ps q env host calls s ↔ DefinedOperands T ins op ty env s.mem := by
  constructor
  · intro hcomputes
    by_contra hundefined
    exact hcode.not_computesAsVm hop hact hlhs hrhs hundefined hcomputes
  · intro hdefined
    have hreached := hcode.reached host (fun _ => True) calls hact.blocks hs fun _ _ => trivial
    obtain ⟨e, e', -, hout, rfl, hruns⟩ := hcode.ordinary (Opcode.integerOp_ordinary hop)
    rw [integerOp_code hop hout hruns] at hreached ⊢
    obtain ⟨v, hv, hvm⟩ := BinOp.evalInt_of_defined hop hdefined.2
    rw [← vmRightOperand_eq hop hdefined] at hvm
    obtain ⟨regs, hgoes⟩ := integerCode_goes host (Opcode.integerOp_int hop) hact hdest hlhs
      hdefined.1 ⟨s.regs, s.mem, calls⟩ e.nextReg hv
    rw [hgoes] at hreached
    rw [ComputesAsVm, hvm]
    exact ⟨regs, _, rfl, hgoes, hreached⟩

/-! ### A division -/

/-- The second variable divided by the third one. -/
def divideDivi : BytecodeInstruction := diviAt [0x10000, 0x30002] 0

/-- A division of two variables. -/
def divideBytecode : List BytecodeInstruction := [
  divideDivi,
  retAt 2]

theorem translateBytecode_divide : ∃ T, translateBytecode loopContext divideBytecode = .ok T ∧
    T.stack.parameters = [] :=
  exists_ok_of_map (by decide +kernel)

/-- The code of the division of two variables. -/
theorem exists_codeOf_divide : ∃ T ps p q,
    translateBytecode loopContext divideBytecode = .ok T ∧ T.stack.totalSpace = 8 ∧
      T.stack.parameters = [] ∧ CodeOf loopContext T divideBytecode divideDivi 4 ps p q := by
  obtain ⟨T, hT, hparameters⟩ := translateBytecode_divide
  have hwalked : Walked divideBytecode := by
    simp [divideBytecode, divideDivi, diviAt, retAt, WalkedFrom, BytecodeInstruction.next]
  obtain ⟨ps, p, q, hcode⟩ := exists_codeOf_at [] _ hwalked hT
  have htotal : T.stack.totalSpace = 8 := by
    rw [hcode.stack_eq]
    rfl
  exact ⟨T, ps, p, q, hT, htotal, hparameters, hcode⟩

end IntegerOps

/-- The variables of the division are locals. -/
theorem divide_inFrame {stack : StackFrame} (htotal : stack.totalSpace = 8) {offset : ℤ}
    (h : 0 < offset ∧ offset ≤ 8) : stack.InFrame offset 4 :=
  StackFrame.inFrame_storage h.1 (by omega) (by omega)

/-- The division of a variable by another one that has the same value, in particular. -/
theorem integerOps_defined_iff_divide : ∃ T ps p q env, Activates T env ∧
    CodeOf loopContext T divideBytecode divideDivi 4 ps p q ∧
      ComputesAsVm T divideDivi .sdiv .i32 ps q env (fun _ => (0, fun _ => 0)) []
        ⟨p, fun _ => 0, fun _ => 1, none⟩ := by
  obtain ⟨T, ps, p, q, -, htotal, hparameters, hcode⟩ := exists_codeOf_divide
  have hact := T.activates_env (by omega) [] (by rw [hparameters]; decide)
  refine ⟨T, ps, p, q, _, hact, hcode, (integerOps_defined_iff hcode rfl hact
    (divide_inFrame htotal (by decide)) (divide_inFrame htotal (by decide))
    (fun _ => divide_inFrame htotal (by decide)) _ _ rfl).mpr
    ⟨fun _ => divide_inFrame htotal (by decide), ?_⟩⟩
  have hone : ∀ layout offset, T.stack.valueOf layout (fun _ => 1) offset .i32 =
      (0x01010101 : BitVec 32) := by
    intro layout offset
    have hread : ∀ a, Bytes.read (fun _ => 1) a 4 = 0x01010101 := fun a => by simp [Bytes.read]
    rw [StackFrame.valueOf, show Ty.i32.storeSize = 4 from rfl, hread]
    rfl
  rw [rightOperand, if_neg (by decide), hone, hone]
  have hdefined : BinOp.sdiv.Defined (0x01010101 : BitVec 32) 0x01010101 := ⟨by decide, by decide⟩
  exact hdefined

/-- **A division by zero is not what the VM does**: the variables of a function start as zero. -/
theorem integerOps_not_defined : ∃ T ps p q env, Activates T env ∧
    translateBytecode loopContext divideBytecode = .ok T ∧
    CodeOf loopContext T divideBytecode divideDivi 4 ps p q ∧
      ¬ ComputesAsVm T divideDivi .sdiv .i32 ps q env (fun _ => (0, fun _ => 0)) []
        ⟨p, fun _ => 0, fun _ => 0, none⟩ := by
  obtain ⟨T, ps, p, q, hT, htotal, hparameters, hcode⟩ := exists_codeOf_divide
  have hact := T.activates_env (by omega) [] (by rw [hparameters]; decide)
  refine ⟨T, ps, p, q, _, hact, hT, hcode, hcode.not_computesAsVm rfl hact
    (divide_inFrame htotal (by decide)) (fun _ => divide_inFrame htotal (by decide)) ?_⟩
  have hzero : ∀ layout offset, T.stack.valueOf layout (fun _ => 0) offset .i32 =
      (0 : BitVec 32) := by
    intro layout offset
    have hread : ∀ a, Bytes.read (fun _ => 0) a 4 = 0 := fun a => by simp [Bytes.read]
    rw [StackFrame.valueOf, show Ty.i32.storeSize = 4 from rfl, hread]
    rfl
  rintro ⟨-, hdefined⟩
  rw [rightOperand, if_neg (by decide), hzero, hzero] at hdefined
  exact hdefined.1 rfl

end Asllvm
