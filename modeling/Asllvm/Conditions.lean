import Asllvm.BytecodeCfg
import Asllvm.Activation

/-!
# Conditions

Comparisons leave `-1`, `0` or `1` in the value register; `TZ` to `TNP` replace it by a truth value,
and the conditional jumps choose by it. `emit_compare` computes the three values from two
comparisons, so operands of which neither holds count as equal.

* `threeWay` — the value of a comparison, from whether the operands are lower and greater.
* `FloatOrder` — how two floating-point operands compare.

## Main results

* `CodeOf.compare_runs`, `CodeOf.test_runs`, `CodeOf.jump_runs` — what the code of the instructions
  does.
* `floatConditions_iff` — conditions on floating-point operands are decided as the VM decides them
  iff the operands are ordered, or only the sign of the comparison is tested.
-/

open StateExcept

namespace Asllvm

/-! ### Comparisons -/

/-- The type at which an instruction compares, whether as signed, and whether with a constant. -/
def Opcode.comparison : Opcode → Option (Ty × Bool × Bool)
  | .CMPd => some (.f64, true, false)
  | .CMPf => some (.f32, true, false)
  | .CMPi => some (.i32, true, false)
  | .CMPu => some (.i32, false, false)
  | .CMPIi => some (.i32, true, true)
  | .CMPIu => some (.i32, false, true)
  | .CMPi64 => some (.i64, true, false)
  | .CMPu64 => some (.i64, false, false)
  | _ => none

/-- The value of a comparison. -/
def threeWay (lower greater : Bool) : BitVec 32 :=
  if greater then 1 else if lower then -1 else 0

/-- Whether an operand is lower than another one, and whether it is greater. -/
def Env.order (env : Env) (ty : Ty) (isSigned : Bool) (x y : BitVec ty.bits) : Bool × Bool :=
  if ty.isFloatingPoint then (env.floats.cmp .olt ty (x.setWidth 64) (y.setWidth 64),
    env.floats.cmp .ogt ty (x.setWidth 64) (y.setWidth 64))
  else if isSigned then (Pred.slt.holds x y, Pred.sgt.holds x y)
  else (Pred.ult.holds x y, Pred.ugt.holds x y)

/-- The two comparisons of `emit_compare`. -/
def orderCode (ty : Ty) (isSigned : Bool) (lhs rhs : Operand) (r : ℕ) : Instr × Instr :=
  if ty.isFloatingPoint then (.fcmp r .olt ty lhs rhs, .fcmp (r + 1) .ogt ty lhs rhs)
  else (.icmp r (if isSigned then .slt else .ult) ty lhs rhs,
    .icmp (r + 1) (if isSigned then .sgt else .ugt) ty lhs rhs)

/-- The code of `emit_compare`. -/
def compareCode (ty : Ty) (isSigned : Bool) (lhs rhs : Operand) (r : ℕ) : List Piece := [
  .instr (orderCode ty isSigned lhs rhs r).1,
  .instr (orderCode ty isSigned lhs rhs r).2,
  .instr (.select (r + 2) (.reg r) (constantInt .i32 (-1)).op (constantInt .i32 0).op),
  .instr (.select (r + 3) (.reg (r + 1)) (constantInt .i32 1).op (.reg (r + 2))),
  .instr (.store .i32 (.reg (r + 3)) (.frame .valueRegister 0))]

/-- The loads of a comparison, and its code. -/
def comparisonCode (stack : StackFrame) (ins : BytecodeInstruction) (ty : Ty)
    (isSigned immediate : Bool) (r : ℕ) : List Piece :=
  if immediate then .instr (.load r ty (stack.slotAddress ins.argSWord0)) ::
    compareCode ty isSigned (.reg r) (constantInt ty ins.argInt).op (r + 1)
  else .instr (.load r ty (stack.slotAddress ins.argSWord0)) ::
    .instr (.load (r + 1) ty (stack.slotAddress ins.argSWord1)) ::
    compareCode ty isSigned (.reg r) (.reg (r + 1)) (r + 2)

section Compare

variable {stack : StackFrame} {ins : BytecodeInstruction} {s s' : EmitState} {ty : Ty}
  {isSigned immediate : Bool} {T : Translation} {env : Env}

theorem runs_emitCompare {config : JitConfig} {lhs rhs : Value} {u : Unit} :
    Runs (emitCompare config lhs rhs isSigned) s u s' ↔
      (config.assertions = true → lhs.ty = rhs.ty) ∧
        s' = s.extend 4 (compareCode lhs.ty isSigned lhs.op rhs.op s.nextReg) := by
  by_cases hfloat : lhs.ty.isFloatingPoint = true
  · simp [emitCompare, createOrder, hfloat, compareCode, orderCode, and_assoc]
  · simp [emitCompare, createOrder, hfloat, compareCode, orderCode, and_assoc]

/-- **The code of a comparison.** -/
theorem comparison_code (hbc : ins.bc.comparison = some (ty, isSigned, immediate))
    (hs : s.out = []) (h : Runs (translateOrdinary stack ins) s () s') :
    s'.out = comparisonCode stack ins ty isSigned immediate s.nextReg := by
  have hcompare : Runs (if immediate then
      stack.load ins.argSWord0 ty >>= fun lhs =>
        emitCompare stack.config lhs (constantInt ty ins.argInt) isSigned
      else compareVariables stack ins ty isSigned) s () s' := by
    unfold Opcode.comparison at hbc
    split at hbc <;> cases hbc <;> rename_i hbc <;> rw [translateOrdinary, hbc] at h <;> exact h
  rw [comparisonCode]
  cases immediate with
  | true =>
      rw [if_pos rfl] at hcompare ⊢
      simp only [runs_bind, StackFrame.runs_load, runs_emitCompare] at hcompare
      obtain ⟨_, _, ⟨-, rfl, rfl⟩, -, rfl⟩ := hcompare
      simp [hs]
  | false =>
      rw [if_neg Bool.false_ne_true] at hcompare ⊢
      simp only [compareVariables, runs_bind, StackFrame.runs_load, runs_emitCompare] at hcompare
      obtain ⟨_, _, ⟨-, rfl, rfl⟩, _, _, ⟨-, rfl, rfl⟩, -, rfl⟩ := hcompare
      simp [hs]

/-- An operand that is not a register from `r` on keeps its value when those are set. -/
theorem eval_update {o : Operand} {r r' : ℕ} (ho : ∀ k, o = .reg k → k < r) (hr : r ≤ r')
    (regs : Regs) (v : Word) : o.eval env (Function.update regs r' v) = o.eval env regs := by
  cases o with
  | reg k =>
      have hk := ho k rfl
      rw [Operand.eval, Operand.eval, Function.update_of_ne (by omega)]
  | _ => rfl

/-- The two comparisons. -/
theorem exec_orderCode {x y : BitVec ty.bits} {lhs rhs : Operand} {r : ℕ} {regs : Regs}
    (hlhs : ∀ k, lhs = .reg k → k < r) (hrhs : ∀ k, rhs = .reg k → k < r)
    (hx : lhs.eval env regs = x.setWidth 64) (hy : rhs.eval env regs = y.setWidth 64)
    (mem : Bytes.Mem) : ∀ regs', regs' = Function.update regs r (ofBool (env.order ty isSigned x y).1) →
      (orderCode ty isSigned lhs rhs r).1.exec env regs mem = some (regs', mem) ∧
      (orderCode ty isSigned lhs rhs r).2.exec env regs' mem = some (Function.update regs' (r + 1)
        (ofBool (env.order ty isSigned x y).2), mem) := by
  rintro regs' rfl
  have hx' := (eval_update hlhs (Nat.le_refl r) regs (ofBool (env.order ty isSigned x y).1)).trans hx
  have hy' := (eval_update hrhs (Nat.le_refl r) regs (ofBool (env.order ty isSigned x y).1)).trans hy
  by_cases hfloat : ty.isFloatingPoint = true
  · rw [orderCode, if_pos hfloat]
    refine ⟨?_, ?_⟩
    · rw [Instr.exec, hx, hy, Env.order, if_pos hfloat]
    · rw [Instr.exec, hx', hy', Env.order, if_pos hfloat]
  · rw [orderCode, if_neg hfloat]
    refine ⟨?_, ?_⟩
    · rw [Instr.exec, hx, hy, Ty.setWidth_setWidth, Ty.setWidth_setWidth, Env.order, if_neg hfloat]
      cases isSigned <;> rfl
    · rw [Instr.exec, hx', hy', Ty.setWidth_setWidth, Ty.setWidth_setWidth, Env.order,
        if_neg hfloat]
      cases isSigned <;> rfl

/-- The two selections. -/
theorem exec_selects (env : Env) {regs : Regs} {r : ℕ} {lower greater : Bool} (hlower : regs r = ofBool lower)
    (hgreater : regs (r + 1) = ofBool greater) (mem : Bytes.Mem) : ∃ regs₁ regs₂,
      (Instr.select (r + 2) (.reg r) (constantInt .i32 (-1)).op (constantInt .i32 0).op).exec env regs
        mem = some (regs₁, mem) ∧
      (Instr.select (r + 3) (.reg (r + 1)) (constantInt .i32 1).op (.reg (r + 2))).exec env regs₁
        mem = some (regs₂, mem) ∧
      regs₂ (r + 3) = (threeWay lower greater).setWidth 64 := by
  refine ⟨_, _, rfl, rfl, ?_⟩
  simp only [Operand.eval, Function.update_self, hlower]
  rw [Function.update_of_ne (by omega), hgreater, ofBool_getLsbD, ofBool_getLsbD]
  cases lower <;> cases greater <;> rfl

/-- **What the code of a comparison does**: it leaves its value in the low dword of the register. -/
theorem compareCode_runs (host : Host) {x y : BitVec ty.bits} {lhs rhs : Operand} {r : ℕ}
    (hact : Activates T env) (hlhs : ∀ k, lhs = .reg k → k < r) (hrhs : ∀ k, rhs = .reg k → k < r)
    (p : Progress) (hx : lhs.eval env p.regs = x.setWidth 64)
    (hy : rhs.eval env p.regs = y.setWidth 64) :
    ∃ regs, runCode env host (compareCode ty isSigned lhs rhs r) p = .goes ⟨regs,
      Bytes.write p.world.mem (env.layout.address .valueRegister) 4
        ((threeWay (env.order ty isSigned x y).1 (env.order ty isSigned x y).2).setWidth 64),
      p.world.calls⟩ := by
  obtain ⟨hlower, hgreater⟩ := exec_orderCode hlhs hrhs hx hy p.world.mem _ rfl
  generalize (env.order ty isSigned x y).1 = lower at hlower hgreater ⊢
  generalize (env.order ty isSigned x y).2 = greater at hgreater ⊢
  have hstore : ∀ regs k, (Instr.store .i32 (.reg k) (.frame .valueRegister 0)).exec env regs
      p.world.mem = some (regs, Bytes.write p.world.mem (env.layout.address .valueRegister) 4
        (Ty.i32.truncate (regs k))) := by
    intro regs k
    exact exec_store_alloca .i32 (hact.valueRegister ▸ Ty.i32.storeSize_le) regs p.world.mem _
  have hlower' : Function.update (Function.update p.regs r (ofBool lower)) (r + 1) (ofBool greater) r =
      ofBool lower := by
    rw [Function.update_of_ne (by omega), Function.update_self]
  obtain ⟨regs₁, regs₂, hfirst, hsecond, hvalue⟩ :=
    exec_selects env hlower' (Function.update_self _ _ _) p.world.mem
  refine ⟨regs₂, ?_⟩
  rw [compareCode, runCode_step hlower, runCode_step hgreater, runCode_step hfirst,
    runCode_step hsecond, runCode_step (hstore _ _), hvalue]
  cases lower <;> cases greater <;> rfl

/-- The second operand of a comparison. -/
def comparedOperand (stack : StackFrame) (layout : FrameLayout) (mem : Bytes.Mem)
    (ins : BytecodeInstruction) (ty : Ty) (immediate : Bool) : BitVec ty.bits :=
  if immediate then BitVec.ofInt ty.bits ins.argInt else stack.valueOf layout mem ins.argSWord1 ty

/-- **What a comparison does**, by the values of its operands. -/
theorem comparisonCode_runs (host : Host) (hact : Activates T env)
    (hlhs : T.stack.InFrame ins.argSWord0 ty.storeSize)
    (hrhs : immediate = false → T.stack.InFrame ins.argSWord1 ty.storeSize) (p : Progress) (r : ℕ)
    {x y : BitVec ty.bits} (hx : T.stack.valueOf env.layout p.world.mem ins.argSWord0 ty = x)
    (hy : comparedOperand T.stack env.layout p.world.mem ins ty immediate = y) :
    ∃ regs, runCode env host (comparisonCode T.stack ins ty isSigned immediate r) p = .goes ⟨regs,
      Bytes.write p.world.mem (env.layout.address .valueRegister) 4
        ((threeWay (env.order ty isSigned x y).1 (env.order ty isSigned x y).2).setWidth 64),
      p.world.calls⟩ := by
  have hload := hlhs.exec_load ty hact p.regs p.world.mem r
  have hx' : ty.truncate (Bytes.read p.world.mem (T.stack.byteAddress env.layout ins.argSWord0)
      ty.storeSize) = x.setWidth 64 := by
    rw [← hx]
    rfl
  rw [hx'] at hload
  rw [comparisonCode]
  cases immediate with
  | true =>
      rw [if_pos rfl, runCode_step hload]
      refine compareCode_runs host hact (by simp) (by simp [constantInt]) ⟨_, p.world⟩
        (Function.update_self _ _ _) ?_
      rw [comparedOperand, if_pos rfl] at hy
      rw [constantInt, Operand.eval, Bytes.setWidth_ofInt ty.bits_le, hy]
  | false =>
      have hload' := (hrhs rfl).exec_load ty hact (Function.update p.regs r (x.setWidth 64))
        p.world.mem (r + 1)
      have hy' : ty.truncate (Bytes.read p.world.mem (T.stack.byteAddress env.layout ins.argSWord1)
          ty.storeSize) = y.setWidth 64 := by
        rw [← hy]
        rfl
      rw [hy'] at hload'
      rw [if_neg Bool.false_ne_true, runCode_step hload, runCode_step hload']
      refine compareCode_runs host hact (by simp) (by simp) ⟨_, p.world⟩ ?_
        (Function.update_self _ _ _)
      rw [Operand.eval]
      dsimp only
      rw [Function.update_of_ne (by omega), Function.update_self]

end Compare

/-! ### Tests -/

/-- The test an instruction replaces the value register by. -/
def Opcode.test : Opcode → Option Pred
  | .TZ => some .eq
  | .TNZ => some .ne
  | .TS => some .slt
  | .TNS => some .sge
  | .TP => some .sgt
  | .TNP => some .sle
  | _ => none

/-- The code of `emit_condition`. -/
def testCode (pred : Pred) (r : ℕ) : List Piece := [
  .instr (.load r .i32 (.frame .valueRegister 0)),
  .instr (.icmp (r + 1) pred .i32 (.reg r) (constantInt .i32 0).op),
  .instr (.cast (r + 2) .zext .i1 (.reg (r + 1)) .i64),
  .instr (.store .i64 (.reg (r + 2)) (.frame .valueRegister 0))]

section Tests

variable {stack : StackFrame} {jumps : JumpTables} {ins : BytecodeInstruction} {s s' : EmitState}
  {pred : Pred} {type : Ty} {T : Translation} {env : Env}

/-- **The code of a test.** -/
theorem test_code (hbc : ins.bc.test = some pred) (hs : s.out = [])
    (h : Runs (translateOrdinary stack ins) s () s') : s'.out = testCode pred s.nextReg := by
  have htest : Runs (emitCondition pred) s () s' := by
    unfold Opcode.test at hbc
    split at hbc <;> cases hbc <;> rename_i hbc <;> rw [translateOrdinary, hbc] at h <;> exact h
  simp [emitCondition] at htest
  rw [htest, EmitState.extend_out, hs]
  rfl

/-- The value register, loaded and compared with zero. -/
theorem exec_test (pred : Pred) (hact : Activates T env) (hbits : type.bits = 8 * type.storeSize) (regs : Regs)
    (mem : Bytes.Mem) (r : ℕ) : ∃ regs₁ regs₂,
      (Instr.load r type (.frame .valueRegister 0)).exec env regs mem = some (regs₁, mem) ∧
      (Instr.icmp (r + 1) pred type (.reg r) (constantInt type 0).op).exec env regs₁ mem =
        some (regs₂, mem) ∧
      regs₂ (r + 1) = ofBool (pred.holds
        ((Bytes.read mem (env.layout.address .valueRegister) 8).setWidth type.bits) 0) := by
  have hload := exec_load_alloca type (hact.valueRegister ▸ type.storeSize_le) regs mem r
  refine ⟨_, _, hload, rfl, ?_⟩
  have hzero : ∀ regs, ((constantInt type 0).op.eval env regs).setWidth type.bits = 0 := by
    intro regs
    simp [constantInt, Operand.eval]
  rw [Function.update_self, hzero, Operand.eval, Function.update_self,
    truncate_read hbits type.storeSize_le]

/-- **What a test does**: the value register becomes the truth value. -/
theorem testCode_runs (host : Host) (hact : Activates T env) (p : Progress) (r : ℕ) :
    ∃ regs, runCode env host (testCode pred r) p = .goes ⟨regs,
      Bytes.write p.world.mem (env.layout.address .valueRegister) 8 (ofBool (pred.holds
        ((Bytes.read p.world.mem (env.layout.address .valueRegister) 8).setWidth 32) 0)),
      p.world.calls⟩ := by
  obtain ⟨regs₁, regs₂, hload, hcompare, hvalue⟩ := exec_test pred hact
    (show Ty.i32.bits = 8 * Ty.i32.storeSize from rfl) p.regs p.world.mem r
  have hcast : ∀ b, regs₂ (r + 1) = ofBool b →
      (Instr.cast (r + 2) .zext .i1 (.reg (r + 1)) .i64).exec env regs₂ p.world.mem =
        some (Function.update regs₂ (r + 2) (ofBool b), p.world.mem) := by
    intro b hb
    rw [Instr.exec, Operand.eval, hb]
    cases b <;> rfl
  change _ = ofBool (pred.holds ((Bytes.read p.world.mem _ 8).setWidth 32) 0) at hvalue
  generalize pred.holds _ _ = b at hvalue ⊢
  have hstore := exec_store_alloca .i64 (hact.valueRegister ▸ Ty.i64.storeSize_le)
    (Function.update regs₂ (r + 2) (ofBool b)) p.world.mem (.reg (r + 2))
  rw [Operand.eval, Function.update_self] at hstore
  refine ⟨Function.update regs₂ (r + 2) (ofBool b), ?_⟩
  rw [testCode, runCode_step hload, runCode_step hcompare, runCode_step (hcast _ hvalue),
    runCode_step hstore]
  cases b <;> rfl

end Tests

/-! ### The instructions of a translated function -/

section CodeOf

variable {context : FunctionContext} {bytecode : List BytecodeInstruction}
  {ins : BytecodeInstruction} {T : Translation} {sp : ℤ} {ps : List Piece} {p q : Position}
  {env : Env}

theorem CodeOf.compare_runs {ty : Ty} {isSigned immediate : Bool}
    (h : CodeOf context T bytecode ins sp ps p q)
    (hbc : ins.bc.comparison = some (ty, isSigned, immediate)) (hact : Activates T env)
    (hlhs : T.stack.InFrame ins.argSWord0 ty.storeSize)
    (hrhs : immediate = false → T.stack.InFrame ins.argSWord1 ty.storeSize) (host : Host)
    (calls : List Request) (s : LocalState) {x y : BitVec ty.bits}
    (hx : T.stack.valueOf env.layout s.mem ins.argSWord0 ty = x)
    (hy : comparedOperand T.stack env.layout s.mem ins ty immediate = y) :
    ∃ regs, runCode env host ps ⟨s.regs, s.mem, calls⟩ = .goes ⟨regs,
      Bytes.write s.mem (env.layout.address .valueRegister) 4
        ((threeWay (env.order ty isSigned x y).1 (env.order ty isSigned x y).2).setWidth 64),
      calls⟩ := by
  have hordinary : ins.bc.endsBlock = false := by
    unfold Opcode.comparison at hbc
    split at hbc <;> cases hbc <;> rename_i hbc <;> rw [hbc] <;> rfl
  obtain ⟨e, e', -, hout, rfl, hruns⟩ := h.ordinary hordinary
  rw [comparison_code hbc hout hruns]
  exact comparisonCode_runs host hact hlhs hrhs ⟨s.regs, s.mem, calls⟩ e.nextReg hx hy

theorem CodeOf.test_runs {pred : Pred} (h : CodeOf context T bytecode ins sp ps p q)
    (hbc : ins.bc.test = some pred) (hact : Activates T env) (host : Host) (calls : List Request)
    (s : LocalState) : ∃ regs, runCode env host ps ⟨s.regs, s.mem, calls⟩ = .goes ⟨regs,
      Bytes.write s.mem (env.layout.address .valueRegister) 8 (ofBool (pred.holds
        ((Bytes.read s.mem (env.layout.address .valueRegister) 8).setWidth 32) 0)), calls⟩ := by
  have hordinary : ins.bc.endsBlock = false := by
    unfold Opcode.test at hbc
    split at hbc <;> cases hbc <;> rename_i hbc <;> rw [hbc] <;> rfl
  obtain ⟨e, e', -, hout, rfl, hruns⟩ := h.ordinary hordinary
  rw [test_code hbc hout hruns]
  exact testCode_runs host hact ⟨s.regs, s.mem, calls⟩ e.nextReg

/-- A conditional jump leaves the memory as it is, and branches by its test. -/
theorem CodeOf.jump_runs {pred : Pred} {type : Ty} (htranslate : translateBytecode context bytecode = .ok T)
    (h : CodeOf context T bytecode ins sp ps p q) (hbc : ins.bc.jumpTest = some (pred, type))
    (hact : Activates T env) (host : Host) (calls : List Request) (s : LocalState) :
    ∃ regs cond, runCode env host ps ⟨s.regs, s.mem, calls⟩ = .goes ⟨regs, s.mem, calls⟩ ∧
      itemAt T.cfg.blocks q =
        some (.term (.condBr cond (.label ins.target) (.label (ins.offset + 2)))) ∧
      cond.eval env regs = ofBool (pred.holds
        ((Bytes.read s.mem (env.layout.address .valueRegister) 8).setWidth type.bits) 0) := by
  have hlabelled : T.jumps.Labelled := (runs_translateBytecode htranslate).1 ▸ preprocess_labelled _
  have hbits : type.bits = 8 * type.storeSize := by
    revert hbc
    cases ins.bc <;> simp [Opcode.jumpTest] <;> rintro - rfl <;> rfl
  obtain ⟨st, t, s', -, -, rfl, hruns, hterm, -⟩ := h
  rw [translateOpcode_of_jumpTest hbc, runs_bind] at hruns
  obtain ⟨term, _, hbranch, hruns⟩ := hruns
  obtain ⟨rfl, rfl⟩ := runs_pure.mp hruns
  obtain ⟨b, fail, hb, hfail, rfl, rfl⟩ := emitConditionalBranch_runs hbranch
  obtain rfl := hlabelled _ _ hb
  obtain rfl := hlabelled _ _ hfail
  obtain ⟨regs₁, regs₂, hload, hcompare, hvalue⟩ := exec_test pred hact hbits s.regs s.mem
    st.emit.nextReg
  refine ⟨regs₂, .reg (st.emit.nextReg + 1), ?_, hterm _ rfl, hvalue⟩
  rw [EmitState.extend_out, List.nil_append, runCode_step hload, runCode_step hcompare]
  rfl

end CodeOf

/-! ### Conditions on floating-point operands -/

/-- How two floating-point operands compare. -/
inductive FloatOrder
  | less
  | equal
  | greater
  | unordered
deriving DecidableEq, Repr

/-- The value of a comparison in the AngelScript VM. -/
def FloatOrder.vmValue : FloatOrder → BitVec 32
  | .equal => 0
  | .less => -1
  | .greater | .unordered => 1

/-- The ordered predicates hold of operands that compare so. -/
structure FloatOps.Compares (floats : FloatOps) (order : Ty → Word → Word → FloatOrder) : Prop where
  olt : ∀ ty a b, floats.cmp .olt ty a b = decide (order ty a b = .less)
  ogt : ∀ ty a b, floats.cmp .ogt ty a b = decide (order ty a b = .greater)

/-- The type of a floating-point comparison of two variables. -/
def Opcode.floatComparison : Opcode → Option Ty
  | .CMPf => some .f32
  | .CMPd => some .f64
  | _ => none

/-- The test an instruction makes of the value of a comparison, to set the value register or to
jump. -/
def Opcode.condition : Opcode → Option Pred
  | .TZ | .JZ => some .eq
  | .TNZ | .JNZ => some .ne
  | .TS | .JS => some .slt
  | .TNS | .JNS => some .sge
  | .TP | .JP => some .sgt
  | .TNP | .JNP => some .sle
  | _ => none

/-- **A condition comes out as `b`**: the value register is set to it, or the jump branches by it. -/
def TestsAs (T : Translation) (test : BytecodeInstruction) (ps : List Piece) (q : Position)
    (env : Env) (host : Host) (calls : List Request) (s : LocalState) (b : Bool) : Prop :=
  if test.bc.isConditionalJump then ∃ regs cond,
    runCode env host ps ⟨s.regs, s.mem, calls⟩ = .goes ⟨regs, s.mem, calls⟩ ∧
    itemAt T.cfg.blocks q =
      some (.term (.condBr cond (.label test.target) (.label (test.offset + 2)))) ∧
    cond.eval env regs = ofBool b ∧
    Reaches env host (fun _ => True) calls s calls
      ⟨(.label (if b then test.target else test.offset + 2), 0), regs, s.mem, some test.offset⟩
  else ∃ regs mem, mem = Bytes.write s.mem (env.layout.address .valueRegister) 8 (ofBool b) ∧
    runCode env host ps ⟨s.regs, s.mem, calls⟩ = .goes ⟨regs, mem, calls⟩ ∧
    Reaches env host (fun _ => True) calls s calls ⟨q, regs, mem, some test.offset⟩

/-- **A comparison decides a condition as the VM does**: whenever the value register still holds its
value, the condition comes out as on the value of the VM. -/
def DecidesAsVm (T : Translation) (cmp test : BytecodeInstruction) (pred : Pred)
    (ps ps' : List Piece) (q p' q' : Position) (env : Env) (host : Host) (calls : List Request) (s : LocalState)
    (order : FloatOrder) : Prop :=
  ∃ regs mem, runCode env host ps ⟨s.regs, s.mem, calls⟩ = .goes ⟨regs, mem, calls⟩ ∧
    Reaches env host (fun _ => True) calls s calls ⟨q, regs, mem, some cmp.offset⟩ ∧
    ∀ calls' s', s'.position = p' →
      Bytes.read s'.mem (env.layout.address .valueRegister) 4 =
        Bytes.read mem (env.layout.address .valueRegister) 4 →
      TestsAs T test ps' q' env host calls' s' (pred.holds order.vmValue 0)

section Decisions

variable {context : FunctionContext} {bytecode : List BytecodeInstruction}
  {cmp test : BytecodeInstruction} {T : Translation} {sp sp' : ℤ} {ps ps' : List Piece}
  {p q p' q' : Position} {env : Env} {ty : Ty} {pred : Pred}

theorem ofBool_inj {b b' : Bool} (h : ofBool b = ofBool b') : b = b' := by
  revert h
  cases b <;> cases b' <;> decide

/-- A condition is the test of the low dword of the value register. -/
theorem CodeOf.testsAs_iff (htranslate : translateBytecode context bytecode = .ok T)
    (h : CodeOf context T bytecode test sp ps p q) (hbc : test.bc.condition = some pred)
    (hact : Activates T env) {host : Host} {calls : List Request} {s : LocalState} (hs : s.position = p)
    {b : Bool} : TestsAs T test ps q env host calls s b ↔ b = pred.holds
      ((Bytes.read s.mem (env.layout.address .valueRegister) 8).setWidth 32) 0 := by
  have hreached := h.reached host (fun _ => True) calls hact.blocks hs fun _ _ => trivial
  rw [TestsAs]
  by_cases hjump : test.bc.isConditionalJump = true
  · have htest : test.bc.jumpTest = some (pred, .i32) := by
      revert hbc hjump
      cases test.bc <;> simp [Opcode.condition, Opcode.isConditionalJump, Opcode.jumpTest]
    obtain ⟨regs, cond, hgoes, hterm, hvalue⟩ := h.jump_runs htranslate htest hact host calls s
    rw [if_pos hjump]
    constructor
    · rintro ⟨regs', cond', hgoes', hterm', hvalue', -⟩
      obtain rfl := (Progress.mk.inj (CodeResult.goes.inj (hgoes.symm.trans hgoes'))).1
      rw [hterm, Option.some.injEq, Item.term.injEq, Terminator.condBr.injEq] at hterm'
      rw [← hterm'.1, hvalue] at hvalue'
      exact (ofBool_inj hvalue').symm
    · intro hb
      have hvalue' : cond.eval env regs = ofBool b := by
        rw [hvalue, hb]
        rfl
      refine ⟨regs, cond, hgoes, hterm, hvalue', ?_⟩
      rw [hgoes] at hreached
      rw [← hact.blocks] at hterm
      refine hreached.trans (.next (fun _ _ => trivial) (LocalState.step_branch hterm ?_) (.refl _ _))
      simp only [Terminator.goto, Progress.within, hvalue', ofBool_getLsbD]
      cases b <;> rfl
  · have htest : test.bc.test = some pred := by
      revert hbc hjump
      cases test.bc <;> simp [Opcode.condition, Opcode.isConditionalJump, Opcode.test]
    obtain ⟨regs, hgoes⟩ := h.test_runs htest hact host calls s
    rw [if_neg hjump]
    constructor
    · rintro ⟨regs', mem', rfl, hgoes', -⟩
      have hmem := (World.mk.inj (Progress.mk.inj
        (CodeResult.goes.inj (hgoes.symm.trans hgoes'))).2).1
      have hread := congrArg (Bytes.read · (env.layout.address .valueRegister) 8) hmem
      simp only [Bytes.read_write_same, BitVec.setWidth_eq] at hread
      exact (ofBool_inj hread).symm
    · rintro rfl
      rw [hgoes] at hreached
      exact ⟨regs, _, rfl, hgoes, hreached⟩

/-- No bytecode with a `CMPIf` is translated: its constant cannot be made. -/
theorem not_translated_of_cmpIf (hwalked : Walked bytecode) (hmem : cmp ∈ bytecode)
    (hbc : cmp.bc = .CMPIf) : translateBytecode context bytecode ≠ .ok T := by
  intro h
  obtain ⟨sp, ps, p, q, hcode⟩ := exists_codeOf hwalked h hmem
  obtain ⟨e, e', -, -, -, hruns⟩ := hcode.ordinary (by rw [hbc]; rfl)
  simp [translateOrdinary, hbc] at hruns

/-- The value of a comparison is what the value register holds of it. -/
theorem setWidth_read_threeWay {mem mem' : Bytes.Mem} {a : ℕ} {v : BitVec 32}
    (h : Bytes.read mem' a 4 = Bytes.read (Bytes.write mem a 4 (v.setWidth 64)) a 4) :
    (Bytes.read mem' a 8).setWidth 32 = v := by
  have hbits : Ty.i32.bits = 8 * Ty.i32.storeSize := rfl
  have hlow := truncate_read hbits (by decide) mem' a
  rw [Ty.setWidth_truncate] at hlow
  change (Bytes.read mem' a 4).setWidth 32 = (Bytes.read mem' a 8).setWidth 32 at hlow
  rw [← hlow, h, Bytes.read_write_same]
  apply BitVec.eq_of_toNat_eq
  simp only [BitVec.toNat_setWidth]
  omega

/-- The two values of an unordered comparison come out the same if only the sign is tested. -/
theorem holds_threeWay_iff (order : FloatOrder) (hpred : test.bc.condition = some pred) :
    pred.holds order.vmValue 0 =
        pred.holds (threeWay (decide (order = .less)) (decide (order = .greater))) 0 ↔
      (order = .unordered → pred = .slt ∨ pred = .sge) := by
  have hcases : pred = .eq ∨ pred = .ne ∨ pred = .slt ∨ pred = .sge ∨ pred = .sgt ∨ pred = .sle := by
    revert hpred
    cases test.bc <;> simp [Opcode.condition] <;> rintro rfl <;> simp
  rcases hcases with rfl | rfl | rfl | rfl | rfl | rfl <;> cases order <;> decide

/-- When a condition on two floating-point variables is decided as the VM decides it. -/
theorem CodeOf.decidesAsVm_iff {order : Ty → Word → Word → FloatOrder} {host : Host}
    {calls : List Request} {s : LocalState} {o : FloatOrder}
    (htranslate : translateBytecode context bytecode = .ok T)
    (hcode : CodeOf context T bytecode cmp sp ps p q) (hcmp : cmp.bc.floatComparison = some ty)
    (hcode' : CodeOf context T bytecode test sp' ps' p' q') (htest : test.bc.condition = some pred)
    (hact : Activates T env) (hcompares : env.floats.Compares order) (hs : s.position = p)
    (hlhs : T.stack.InFrame cmp.argSWord0 ty.storeSize)
    (hrhs : T.stack.InFrame cmp.argSWord1 ty.storeSize)
    (ho : o = order ty ((T.stack.valueOf env.layout s.mem cmp.argSWord0 ty).setWidth 64)
      ((T.stack.valueOf env.layout s.mem cmp.argSWord1 ty).setWidth 64)) :
    DecidesAsVm T cmp test pred ps ps' q p' q' env host calls s o ↔
      (o = .unordered → pred = .slt ∨ pred = .sge) := by
  have hcomparison : cmp.bc.comparison = some (ty, true, false) ∧ ty.isFloatingPoint = true := by
    revert hcmp
    cases cmp.bc <;> simp [Opcode.floatComparison, Opcode.comparison] <;> rintro rfl <;> simp <;> rfl
  obtain ⟨hcomparison, hfloat⟩ := hcomparison
  obtain ⟨regs, hgoes⟩ := hcode.compare_runs hcomparison hact hlhs (fun _ => hrhs) host calls s rfl rfl
  have hreached := hcode.reached host (fun _ => True) calls hact.blocks hs fun _ _ => trivial
  rw [Env.order, if_pos hfloat, hcompares.olt, hcompares.ogt] at hgoes
  rw [comparedOperand, if_neg Bool.false_ne_true, ← ho] at hgoes
  rw [hgoes] at hreached
  rw [← holds_threeWay_iff o htest]
  constructor
  · rintro ⟨regs', mem', hgoes', -, htests⟩
    obtain ⟨rfl, hworld⟩ := Progress.mk.inj (CodeResult.goes.inj (hgoes.symm.trans hgoes'))
    obtain rfl := (World.mk.inj hworld).1
    have htest' := (hcode'.testsAs_iff htranslate htest hact rfl).mp
      (htests calls ⟨p', regs, _, none⟩ rfl rfl)
    have hvalue := @setWidth_read_threeWay s.mem _ (env.layout.address .valueRegister)
      (threeWay (decide (o = .less)) (decide (o = .greater))) rfl
    exact htest'.trans (congrArg (pred.holds · 0) hvalue)
  · intro heq
    refine ⟨regs, _, hgoes, hreached, fun calls' s' hs' hread => ?_⟩
    rw [hcode'.testsAs_iff htranslate htest hact hs', setWidth_read_threeWay hread]
    exact heq

/-- **When conditions on floating-point operands are decided as the AngelScript VM decides them**: iff
the operands are ordered, or only the sign of the comparison is tested. A comparison with a constant
is not translated at all. -/
theorem floatConditions_iff (hwalked : Walked bytecode) :
    (∀ ins ∈ bytecode, ins.bc = .CMPIf → ∀ T, translateBytecode context bytecode ≠ .ok T) ∧
    ∀ T cmp test ty pred sp sp' ps ps' p q p' q' env order host calls s o,
      translateBytecode context bytecode = .ok T →
      CodeOf context T bytecode cmp sp ps p q → cmp.bc.floatComparison = some ty →
      CodeOf context T bytecode test sp' ps' p' q' → test.bc.condition = some pred →
      Activates T env → env.floats.Compares order → s.position = p →
      T.stack.InFrame cmp.argSWord0 ty.storeSize → T.stack.InFrame cmp.argSWord1 ty.storeSize →
      o = order ty ((T.stack.valueOf env.layout s.mem cmp.argSWord0 ty).setWidth 64)
        ((T.stack.valueOf env.layout s.mem cmp.argSWord1 ty).setWidth 64) →
      (DecidesAsVm T cmp test pred ps ps' q p' q' env host calls s o ↔
        (o = .unordered → pred = .slt ∨ pred = .sge)) := by
  refine ⟨fun ins hmem hbc T => not_translated_of_cmpIf hwalked hmem hbc, ?_⟩
  intro T cmp test ty pred sp sp' ps ps' p q p' q' env order host calls s o htranslate hcode hcmp hcode'
    htest hact hcompares hs hlhs hrhs ho
  exact hcode.decidesAsVm_iff htranslate hcmp hcode' htest hact hcompares hs hlhs hrhs ho

end Decisions

/-! ### Two operands that are not numbers -/

/-- A value that is not a number, with `e` bits of exponent and `m` of mantissa. -/
def isNaN (e m : ℕ) (v : Word) : Bool := 2 ^ m * (2 ^ e - 1) < v.toNat % 2 ^ (e + m)

/-- The order of the numbers in a floating-point format is that of their signed magnitudes. -/
def floatKey (e m : ℕ) (v : Word) : ℤ :=
  if v.getLsbD (e + m) then -((v.toNat % 2 ^ (e + m) : ℕ) : ℤ) else (v.toNat % 2 ^ (e + m) : ℕ)

/-- The order of `float`s and of `double`s. -/
def binaryOrder (ty : Ty) (a b : Word) : FloatOrder :=
  let e := if ty = .f64 then 11 else 8
  let m := if ty = .f64 then 52 else 23
  if isNaN e m a || isNaN e m b then .unordered
  else if floatKey e m a < floatKey e m b then .less
  else if floatKey e m a = floatKey e m b then .equal
  else .greater

/-- Operations that compare by an order. -/
def FloatOps.ofOrder (order : Ty → Word → Word → FloatOrder) : FloatOps where
  binop _ _ _ _ := 0
  cmp pred ty a b :=
    match pred with
    | .olt => decide (order ty a b = .less)
    | .ogt => decide (order ty a b = .greater)
  cast _ _ _ _ := 0

theorem FloatOps.ofOrder_compares (order : Ty → Word → Word → FloatOrder) :
    (FloatOps.ofOrder order).Compares order where
  olt _ _ _ := rfl
  ogt _ _ _ := rfl

/-- The first variable compared with the second one, as `float`s. -/
def floatCmpf : BytecodeInstruction := ⟨[0x10000, 2], ⟨.CMPf, 2, 0, by decide⟩, 0⟩

/-- The test for equality. -/
def floatTz : BytecodeInstruction := ⟨[0], ⟨.TZ, 1, 0, by decide⟩, 2⟩

/-- The test of the sign. -/
def floatTs : BytecodeInstruction := ⟨[0], ⟨.TS, 1, 0, by decide⟩, 2⟩

/-- A test of the order of two variables, as `float`s. -/
def floatBytecode (test : BytecodeInstruction) : List BytecodeInstruction :=
  [floatCmpf, test, retAt 3]

theorem translateBytecode_float {test : BytecodeInstruction} (htest : test = floatTz ∨ test = floatTs) :
    ∃ T, translateBytecode loopContext (floatBytecode test) = .ok T ∧ T.stack.parameters = [] := by
  rcases htest with rfl | rfl
  · exact exists_ok_of_map (by decide +kernel)
  · exact exists_ok_of_map (by decide +kernel)

/-- The code of the comparison of two variables. -/
theorem exists_codeOf_float {test : BytecodeInstruction} (htest : test = floatTz ∨ test = floatTs) :
    ∃ T env ps p q ps' p' q', translateBytecode loopContext (floatBytecode test) = .ok T ∧
      Walked (floatBytecode test) ∧ T.stack.totalSpace = 8 ∧
      (∀ offset, 0 < offset ∧ offset ≤ 8 → T.stack.InFrame offset 4) ∧
      CodeOf loopContext T (floatBytecode test) floatCmpf 4 ps p q ∧
      CodeOf loopContext T (floatBytecode test) test 4 ps' p' q' ∧ Activates T env ∧
      env.floats = .ofOrder binaryOrder := by
  obtain ⟨T, hT, hparameters⟩ := translateBytecode_float htest
  have hwalked : Walked (floatBytecode test) := by
    rcases htest with rfl | rfl <;>
      simp [floatBytecode, floatCmpf, floatTz, floatTs, retAt, WalkedFrom, BytecodeInstruction.next]
  obtain ⟨ps, p, q, hcode⟩ := exists_codeOf_at [] _ hwalked hT
  obtain ⟨ps', p', q', hcode'⟩ := exists_codeOf_at [floatCmpf] _ hwalked hT
  have htotal : T.stack.totalSpace = 8 := by
    rw [hcode.stack_eq]
    rfl
  have hact := T.activates_env (by omega) [] (by rw [hparameters]; decide)
  refine ⟨T, { T.env (by omega) [] with floats := .ofOrder binaryOrder }, ps, p, q, ps', p', q', hT,
    hwalked, htotal, ?_, hcode, hcode',
    ⟨hact.blocks, hact.storage, hact.valueRegister, hact.objectRegister, hact.parameter⟩, rfl⟩
  intro offset hoffset
  exact StackFrame.inFrame_storage (by omega) (by omega) (by omega)

/-- A variable of a memory in which all bits are set. -/
theorem valueOf_ones (stack : StackFrame) (layout : FrameLayout) (offset : ℤ) :
    (stack.valueOf layout (fun _ => 0xFF) offset .f32).setWidth 64 = 0xFFFFFFFF := by
  have hones : ∀ a, Bytes.read (fun _ => 0xFF) a 4 = 0xFFFFFFFF := fun a => by simp [Bytes.read]
  rw [StackFrame.valueOf, show Ty.f32.storeSize = 4 from rfl, hones]
  rfl

/-- A memory in which the two variables are `1.5` and `2.5`. -/
def orderedMem (stack : StackFrame) (layout : FrameLayout) : Bytes.Mem :=
  Bytes.write (Bytes.write (fun _ => 0) (stack.byteAddress layout 1) 4 0x3FC00000)
    (stack.byteAddress layout 2) 4 0x40200000

theorem valueOf_orderedMem {stack : StackFrame} (htotal : stack.totalSpace = 8) (layout : FrameLayout) :
    (stack.valueOf layout (orderedMem stack layout) 1 .f32).setWidth 64 = 0x3FC00000 ∧
      (stack.valueOf layout (orderedMem stack layout) 2 .f32).setWidth 64 = 0x40200000 := by
  have hapart : stack.byteAddress layout 2 + 4 ≤ stack.byteAddress layout 1 := by
    rw [StackFrame.byteAddress, StackFrame.byteAddress, if_neg (by decide), if_neg (by decide), htotal]
    omega
  rw [StackFrame.valueOf, StackFrame.valueOf, show Ty.f32.storeSize = 4 from rfl, orderedMem,
    Bytes.read_write_disjoint (.inr hapart), Bytes.read_write_same, Bytes.read_write_same]
  exact ⟨rfl, rfl⟩

/-- Whether `1.5` and `2.5` are equal, and whether of two variables that are not numbers the first is
less, in particular. -/
theorem floatConditions_iff_ordered :
    (∃ T env ps p q ps' p' q', Activates T env ∧
      CodeOf loopContext T (floatBytecode floatTz) floatCmpf 4 ps p q ∧
      CodeOf loopContext T (floatBytecode floatTz) floatTz 4 ps' p' q' ∧
        DecidesAsVm T floatCmpf floatTz .eq ps ps' q p' q' env (fun _ => (0, fun _ => 0)) []
          ⟨p, fun _ => 0, orderedMem T.stack env.layout, none⟩ .less) ∧
    ∃ T env ps p q ps' p' q', Activates T env ∧
      CodeOf loopContext T (floatBytecode floatTs) floatCmpf 4 ps p q ∧
      CodeOf loopContext T (floatBytecode floatTs) floatTs 4 ps' p' q' ∧
        DecidesAsVm T floatCmpf floatTs .slt ps ps' q p' q' env (fun _ => (0, fun _ => 0)) []
          ⟨p, fun _ => 0, fun _ => 0xFF, none⟩ .unordered := by
  constructor
  · obtain ⟨T, env, ps, p, q, ps', p', q', hT, hwalked, htotal, hframe, hcode, hcode', hact, hfloats⟩ :=
      exists_codeOf_float (.inl rfl)
    obtain ⟨hfirst, hsecond⟩ := valueOf_orderedMem htotal env.layout
    refine ⟨T, env, ps, p, q, ps', p', q', hact, hcode, hcode', ((floatConditions_iff hwalked).2 T
      floatCmpf floatTz .f32 .eq 4 4 ps ps' p q p' q' env binaryOrder _ _ _ .less hT hcode rfl hcode' rfl
      hact (hfloats ▸ FloatOps.ofOrder_compares binaryOrder) rfl (hframe _ (by decide))
      (hframe _ (by decide)) ?_).mpr fun h => absurd h (by decide)⟩
    exact (congrArg₂ (binaryOrder .f32) hfirst hsecond).symm
  · obtain ⟨T, env, ps, p, q, ps', p', q', hT, hwalked, -, hframe, hcode, hcode', hact, hfloats⟩ :=
      exists_codeOf_float (.inr rfl)
    refine ⟨T, env, ps, p, q, ps', p', q', hact, hcode, hcode', ((floatConditions_iff hwalked).2 T
      floatCmpf floatTs .f32 .slt 4 4 ps ps' p q p' q' env binaryOrder _ _ _ .unordered hT hcode rfl
      hcode' rfl hact (hfloats ▸ FloatOps.ofOrder_compares binaryOrder) rfl (hframe _ (by decide))
      (hframe _ (by decide)) ?_).mpr fun _ => .inl rfl⟩
    exact (congrArg₂ (binaryOrder .f32) (valueOf_ones _ _ _) (valueOf_ones _ _ _)).symm

/-- **Two variables that are not numbers are reported equal**: `a == b` is true of them. -/
theorem floatConditions_not_nan : ∃ T env ps p q ps' p' q',
    translateBytecode loopContext (floatBytecode floatTz) = .ok T ∧ Activates T env ∧
    env.floats.Compares binaryOrder ∧
    CodeOf loopContext T (floatBytecode floatTz) floatCmpf 4 ps p q ∧
    CodeOf loopContext T (floatBytecode floatTz) floatTz 4 ps' p' q' ∧
    (∀ offset, (T.stack.valueOf env.layout (fun _ => 0xFF) offset .f32).setWidth 64 = 0xFFFFFFFF) ∧
    binaryOrder .f32 0xFFFFFFFF 0xFFFFFFFF = .unordered ∧
      ¬ DecidesAsVm T floatCmpf floatTz .eq ps ps' q p' q' env (fun _ => (0, fun _ => 0)) []
        ⟨p, fun _ => 0, fun _ => 0xFF, none⟩ .unordered := by
  obtain ⟨T, env, ps, p, q, ps', p', q', hT, hwalked, -, hframe, hcode, hcode', hact, hfloats⟩ :=
    exists_codeOf_float (.inl rfl)
  have hones := valueOf_ones T.stack env.layout
  refine ⟨T, env, ps, p, q, ps', p', q', hT, hact, hfloats ▸ FloatOps.ofOrder_compares binaryOrder,
    hcode, hcode', hones, by decide, ?_⟩
  rw [hcode.decidesAsVm_iff hT rfl hcode' rfl hact
    (hfloats ▸ FloatOps.ofOrder_compares binaryOrder) rfl (hframe _ (by decide))
    (hframe _ (by decide)) (by rw [hones, hones]; decide)]
  exact fun h => absurd (h rfl) (by decide)

end Asllvm
