import Asllvm.Conditions
import Asllvm.Conversions
import Asllvm.ScriptCalls
import Asllvm.Lib.Lockstep

/-!
# The AngelScript Interpreter on Integers

What the AngelScript VM does with the instructions on integers of 32 and 64 bits and with those of the
control flow. The variables of a function are dwords, which lie downwards: a variable of 64 bits at an
offset has its low dword there and its high dword at the offset below.

* `Machine` — the state of the VM in a function.
* `Machine.step` — what it does with the instruction it is at.
* `Machine.Defined` — LLVM defines the operation of that instruction, which is where the code of an
  operation on integers does what the VM does.

## Main results

* `Opcode.inFragment_cases` — the kinds of the instructions.
* `Machine.exec_integerOp`, `Machine.exec_move`, `Machine.exec_unaryOp`, `Machine.exec_conversion`,
  `Machine.exec_comparison`, `Machine.exec_test` — what each kind does.
-/

namespace Asllvm

/-! ### Instructions -/

/-- The opcodes on integers of 32 and 64 bits, and those of the control flow. -/
def Opcode.inFragment : Opcode → Bool
  | .SetV4 | .SetV8 | .CpyVtoV4 | .CpyVtoV8 | .CpyVtoR4 | .CpyVtoR8 | .CpyRtoV4 | .CpyRtoV8
  | .IncVi | .DecVi | .NEGi | .NEGi64 | .BNOT | .BNOT64
  | .ADDi | .SUBi | .MULi | .DIVi | .MODi | .DIVu | .MODu
  | .BAND | .BOR | .BXOR | .BSLL | .BSRL | .BSRA
  | .ADDi64 | .SUBi64 | .MULi64 | .DIVi64 | .MODi64 | .DIVu64 | .MODu64
  | .BAND64 | .BOR64 | .BXOR64 | .BSLL64 | .BSRL64 | .BSRA64
  | .ADDIi | .SUBIi | .MULIi | .i64TOi | .uTOi64 | .iTOi64
  | .CMPi | .CMPu | .CMPIi | .CMPIu | .CMPi64 | .CMPu64
  | .TZ | .TNZ | .TS | .TNS | .TP | .TNP
  | .JZ | .JNZ | .JS | .JNS | .JP | .JNP | .JLowZ | .JLowNZ | .JMP
  | .SUSPEND | .JitEntry | .RET => true
  | _ => false

/-- Where an instruction that moves a value takes it from, or puts it: the constant in it, the value
register, or the variable its first or second operand names. -/
inductive MovePlace
  | constant
  | register
  | first
  | second
deriving DecidableEq, Repr

/-- The type of a value that is moved, where from and where to. -/
def Opcode.move : Opcode → Option (Ty × MovePlace × MovePlace)
  | .SetV4 => some (.i32, .constant, .first)
  | .SetV8 => some (.i64, .constant, .first)
  | .CpyVtoV4 => some (.i32, .second, .first)
  | .CpyVtoV8 => some (.i64, .second, .first)
  | .CpyVtoR4 => some (.i32, .first, .register)
  | .CpyVtoR8 => some (.i64, .first, .register)
  | .CpyRtoV4 => some (.i32, .register, .first)
  | .CpyRtoV8 => some (.i64, .register, .first)
  | _ => none

/-- The operations on one variable. -/
inductive UnaryOp
  | neg
  | not
  | inc
  | dec
deriving DecidableEq, Repr

/-- What the VM computes. -/
def UnaryOp.evalVm (op : UnaryOp) {w : ℕ} (x : BitVec w) : BitVec w :=
  match op with
  | .neg => -x
  | .not => ~~~x
  | .inc => x + 1
  | .dec => x - 1

/-- The operation of an instruction on one variable, and the type it is computed at. -/
def Opcode.unaryOp : Opcode → Option (UnaryOp × Ty)
  | .NEGi => some (.neg, .i32)
  | .NEGi64 => some (.neg, .i64)
  | .BNOT => some (.not, .i32)
  | .BNOT64 => some (.not, .i64)
  | .IncVi => some (.inc, .i32)
  | .DecVi => some (.dec, .i32)
  | _ => none

/-- The instructions that do nothing. -/
def Opcode.isIdle : Opcode → Bool
  | .SUSPEND | .JitEntry => true
  | _ => false

/-- The conversions between the two widths. -/
def Opcode.isWidthConversion : Opcode → Bool
  | .i64TOi | .uTOi64 | .iTOi64 => true
  | _ => false

/-- The comparisons of integers. -/
def Opcode.isIntegerComparison (bc : Opcode) : Bool :=
  bc.comparison.any fun comparison => !comparison.1.isFloatingPoint

/-- **The kinds of the instructions.** -/
theorem Opcode.inFragment_cases {bc : Opcode} (h : bc.inFragment = true) :
    bc.integerOp.isSome = true ∨ bc.move.isSome = true ∨ bc.unaryOp.isSome = true ∨
      bc.isWidthConversion = true ∨ bc.isIntegerComparison = true ∨ bc.test.isSome = true ∨
      bc.isIdle = true ∨ bc.isConditionalJump = true ∨ bc = .JMP ∨ bc = .RET := by
  revert h
  cases bc <;> decide

/-- The variable of an instruction that moves a value. -/
def BytecodeInstruction.movedVariable (ins : BytecodeInstruction) (ty : Ty) :
    MovePlace → List (ℤ × Ty)
  | .constant | .register => []
  | .first => [(ins.argSWord0, ty)]
  | .second => [(ins.argSWord1, ty)]

/-- **The variables an instruction accesses**, with their types. -/
def BytecodeInstruction.accesses (ins : BytecodeInstruction) : List (ℤ × Ty) :=
  match ins.bc.integerOp, ins.bc.move, ins.bc.unaryOp, ins.bc.comparison with
  | some (op, ty), _, _, _ =>
      (ins.argSWord0, ty) :: (ins.argSWord1, ty) ::
        if ins.bc.hasImmediate then [] else [(ins.argSWord2, if op.isShift then .i32 else ty)]
  | _, some (ty, source, destination), _, _ =>
      ins.movedVariable ty source ++ ins.movedVariable ty destination
  | _, _, some (_, ty), _ => [(ins.argSWord0, ty)]
  | _, _, _, some (ty, _, immediate) =>
      (ins.argSWord0, ty) :: if immediate then [] else [(ins.argSWord1, ty)]
  | _, _, _, _ =>
      match ins.bc with
      | .i64TOi => [(ins.argSWord0, .i32), (ins.argSWord1, .i64)]
      | .uTOi64 | .iTOi64 => [(ins.argSWord0, .i64), (ins.argSWord1, .i32)]
      | _ => []

section Families

variable {ins : BytecodeInstruction} {ty : Ty}

theorem accesses_integerOp {op : BinOp} (h : ins.bc.integerOp = some (op, ty)) :
    ins.accesses = (ins.argSWord0, ty) :: (ins.argSWord1, ty) ::
      if ins.bc.hasImmediate then [] else [(ins.argSWord2, if op.isShift then .i32 else ty)] := by
  unfold BytecodeInstruction.accesses
  simp only [h]

theorem Opcode.integerOp_of_move {bc : Opcode} (h : bc.move.isSome = true) : bc.integerOp = none := by
  unfold move at h
  split at h <;> first | rfl | exact Bool.noConfusion h

theorem accesses_move {source destination : MovePlace}
    (h : ins.bc.move = some (ty, source, destination)) :
    ins.accesses = ins.movedVariable ty source ++ ins.movedVariable ty destination := by
  have hop := Opcode.integerOp_of_move (Option.isSome_of_eq_some h)
  unfold BytecodeInstruction.accesses
  simp only [hop, h]

theorem Opcode.families_of_unaryOp {bc : Opcode} (h : bc.unaryOp.isSome = true) :
    bc.integerOp = none ∧ bc.move = none := by
  unfold unaryOp at h
  split at h <;> first | exact ⟨rfl, rfl⟩ | exact Bool.noConfusion h

theorem accesses_unaryOp {op : UnaryOp} (h : ins.bc.unaryOp = some (op, ty)) :
    ins.accesses = [(ins.argSWord0, ty)] := by
  obtain ⟨hop, hmove⟩ := Opcode.families_of_unaryOp (Option.isSome_of_eq_some h)
  unfold BytecodeInstruction.accesses
  simp only [hop, hmove, h]

theorem Opcode.families_of_comparison {bc : Opcode} (h : bc.comparison.isSome = true) :
    bc.integerOp = none ∧ bc.move = none ∧ bc.unaryOp = none := by
  unfold comparison at h
  split at h <;> first | exact ⟨rfl, rfl, rfl⟩ | exact Bool.noConfusion h

theorem accesses_comparison {isSigned immediate : Bool}
    (h : ins.bc.comparison = some (ty, isSigned, immediate)) :
    ins.accesses = (ins.argSWord0, ty) :: if immediate then [] else [(ins.argSWord1, ty)] := by
  obtain ⟨hop, hmove, hunary⟩ := Opcode.families_of_comparison (Option.isSome_of_eq_some h)
  unfold BytecodeInstruction.accesses
  simp only [hop, hmove, hunary, h]

theorem accesses_conversion {op : CastOp} {src dst : Ty} (hwidth : ins.bc.isWidthConversion = true)
    (h : ins.bc.conversion = some (op, src, dst)) :
    ins.accesses = [(ins.argSWord0, dst), (ins.argSWord1, src)] := by
  unfold BytecodeInstruction.accesses
  generalize ins.bc = bc at hwidth h ⊢
  unfold Opcode.isWidthConversion at hwidth
  split at hwidth <;> first | exact Bool.noConfusion hwidth | (cases h; rfl)

theorem Opcode.families_of_test {bc : Opcode} (h : bc.test.isSome = true) :
    bc.integerOp = none ∧ bc.move = none ∧ bc.unaryOp = none ∧ bc.comparison = none := by
  unfold test at h
  split at h <;> first | exact ⟨rfl, rfl, rfl, rfl⟩ | exact Bool.noConfusion h

end Families

/-! ### The state of the VM -/

/-- **The state of the AngelScript VM** in a function: the offset of the instruction it is at, the
dwords of the variables and the value register. -/
structure Machine where
  offset : ℤ
  dwords : ℤ → BitVec 32
  valueRegister : Word

namespace Machine

/-- A variable, as a word: of 64 bits, or a dword. -/
def value (m : Machine) (o : ℤ) (ty : Ty) : Word :=
  if ty = .i64 then m.dwords (o - 1) ++ m.dwords o else (m.dwords o).setWidth 64

/-- A variable is set. -/
def set (m : Machine) (o : ℤ) (ty : Ty) (v : Word) : Machine :=
  let low := Function.update m.dwords o (v.setWidth 32)
  { m with
    dwords :=
      if ty = .i64 then Function.update low (o - 1) ((v >>> 32).setWidth 32) else low }

/-- The value register is set: all of it, or its low dword. -/
def setRegister (m : Machine) (ty : Ty) (v : Word) : Machine :=
  { m with
    valueRegister :=
      if ty = .i64 then v else m.valueRegister.extractLsb' 32 32 ++ v.setWidth 32 }

/-- The value an instruction moves. -/
def moved (m : Machine) (ins : BytecodeInstruction) (ty : Ty) : MovePlace → Word
  | .constant => if ty = .i64 then ins.argQWord else ins.argDWord.setWidth 64
  | .register => m.valueRegister
  | .first => m.value ins.argSWord0 ty
  | .second => m.value ins.argSWord1 ty

/-- The value is put where it goes. -/
def put (m : Machine) (ins : BytecodeInstruction) (ty : Ty) (v : Word) : MovePlace → Machine
  | .constant => m
  | .register => m.setRegister ty v
  | .first => m.set ins.argSWord0 ty v
  | .second => m.set ins.argSWord1 ty v

/-- The second operand of an operation: a constant, the count of a shift, which is a dword, or a
variable. -/
def rightOperand (m : Machine) (ins : BytecodeInstruction) (op : BinOp) (ty : Ty) : BitVec ty.bits :=
  if ins.bc.hasImmediate then BitVec.ofInt ty.bits (ins.argInt 1)
  else (m.value ins.argSWord2 (if op.isShift then .i32 else ty)).setWidth ty.bits

/-- The second operand of a comparison. -/
def comparedOperand (m : Machine) (ins : BytecodeInstruction) (ty : Ty) (immediate : Bool) :
    BitVec ty.bits :=
  if immediate then BitVec.ofInt ty.bits ins.argInt else (m.value ins.argSWord1 ty).setWidth ty.bits

/-- The value of a comparison of integers. -/
def compare {w : ℕ} (isSigned : Bool) (x y : BitVec w) : BitVec 32 :=
  if isSigned then threeWay (Pred.slt.holds x y) (Pred.sgt.holds x y)
  else threeWay (Pred.ult.holds x y) (Pred.ugt.holds x y)

/-- **What an instruction that does not jump does** to the variables and the value register. An
operation without a result raises an exception. -/
def exec (ins : BytecodeInstruction) (m : Machine) : Option Machine :=
  match ins.bc.integerOp, ins.bc.move, ins.bc.unaryOp, ins.bc.comparison, ins.bc.test with
  | some (op, ty), _, _, _, _ =>
      (op.evalVm ((m.value ins.argSWord1 ty).setWidth ty.bits) (m.rightOperand ins op ty)).map
        fun v => m.set ins.argSWord0 ty (v.setWidth 64)
  | _, some (ty, source, destination), _, _, _ =>
      some (m.put ins ty (m.moved ins ty source) destination)
  | _, _, some (op, ty), _, _ =>
      let x : BitVec ty.bits := (m.value ins.argSWord0 ty).setWidth ty.bits
      some (m.set ins.argSWord0 ty ((op.evalVm x).setWidth 64))
  | _, _, _, some (ty, isSigned, immediate), _ =>
      let x := (m.value ins.argSWord0 ty).setWidth ty.bits
      let y := m.comparedOperand ins ty immediate
      some (m.setRegister .i32 ((compare isSigned x y).setWidth 64))
  | _, _, _, _, some pred =>
      some { m with
        valueRegister := ofBool (pred.holds (m.valueRegister.setWidth 32) (0 : BitVec 32)) }
  | _, _, _, _, _ =>
      match ins.bc with
      | .i64TOi =>
          some (m.set ins.argSWord0 .i32 (ins.bc.vmResult (m.value ins.argSWord1 .i64)))
      | .uTOi64 | .iTOi64 =>
          some (m.set ins.argSWord0 .i64 (ins.bc.vmResult (m.value ins.argSWord1 .i32)))
      | _ => some m

section Families

variable {ins : BytecodeInstruction} {m : Machine} {ty : Ty}

theorem exec_integerOp {op : BinOp} (h : ins.bc.integerOp = some (op, ty)) :
    m.exec ins = (op.evalVm ((m.value ins.argSWord1 ty).setWidth ty.bits)
      (m.rightOperand ins op ty)).map fun v => m.set ins.argSWord0 ty (v.setWidth 64) := by
  unfold exec
  simp only [h]

theorem exec_move {source destination : MovePlace}
    (h : ins.bc.move = some (ty, source, destination)) :
    m.exec ins = some (m.put ins ty (m.moved ins ty source) destination) := by
  have hop := Opcode.integerOp_of_move (Option.isSome_of_eq_some h)
  unfold exec
  simp only [hop, h]

theorem exec_unaryOp {op : UnaryOp} (h : ins.bc.unaryOp = some (op, ty)) :
    m.exec ins = some (m.set ins.argSWord0 ty
      ((op.evalVm ((m.value ins.argSWord0 ty).setWidth ty.bits)).setWidth 64)) := by
  obtain ⟨hop, hmove⟩ := Opcode.families_of_unaryOp (Option.isSome_of_eq_some h)
  unfold exec
  simp only [hop, hmove, h]

theorem exec_comparison {isSigned immediate : Bool}
    (h : ins.bc.comparison = some (ty, isSigned, immediate)) :
    m.exec ins = some (m.setRegister .i32 ((compare isSigned
      ((m.value ins.argSWord0 ty).setWidth ty.bits)
      (m.comparedOperand ins ty immediate)).setWidth 64)) := by
  obtain ⟨hop, hmove, hunary⟩ := Opcode.families_of_comparison (Option.isSome_of_eq_some h)
  unfold exec
  simp only [hop, hmove, hunary, h]

theorem exec_test {pred : Pred} (h : ins.bc.test = some pred) :
    m.exec ins = some { m with
      valueRegister := ofBool (pred.holds (m.valueRegister.setWidth 32) (0 : BitVec 32)) } := by
  obtain ⟨hop, hmove, hunary, hcomparison⟩ :=
    Opcode.families_of_test (Option.isSome_of_eq_some h)
  unfold exec
  simp only [hop, hmove, hunary, hcomparison, h]

theorem exec_conversion {op : CastOp} {src dst : Ty} (hwidth : ins.bc.isWidthConversion = true)
    (h : ins.bc.conversion = some (op, src, dst)) : m.exec ins =
      some (m.set ins.argSWord0 dst (ins.bc.vmResult (m.value ins.argSWord1 src))) := by
  unfold exec
  generalize hbc : ins.bc = bc at hwidth h ⊢
  unfold Opcode.isWidthConversion at hwidth
  split at hwidth <;> first | exact Bool.noConfusion hwidth | (cases h; rfl)

theorem exec_idle (h : ins.bc.isIdle = true) : m.exec ins = some m := by
  unfold exec
  generalize ins.bc = bc at h ⊢
  unfold Opcode.isIdle at h
  split at h <;> first | rfl | exact Bool.noConfusion h

end Families

/-- What the VM comes to at an instruction. -/
inductive Outcome
  | next (m : Machine)
  | finished
  | exception
  | unsupported

/-- The instruction the VM is at. -/
def current (bytecode : List BytecodeInstruction) (m : Machine) : Option BytecodeInstruction :=
  bytecode.find? fun ins => decide ((ins.offset : ℤ) = m.offset)

/-- **What the VM does with an instruction.** -/
def execute (ins : BytecodeInstruction) (m : Machine) : Outcome :=
  if !ins.bc.inFragment then .unsupported
  else if ins.bc = .RET then .finished
  else if ins.bc = .JMP then .next { m with offset := ins.target }
  else if ins.bc.isConditionalJump then
    .next { m with offset := if ins.bc.taken m.valueRegister then ins.target else ins.offset + 2 }
  else
    match m.exec ins with
    | some m' => .next { m' with offset := ins.next }
    | none => .exception

/-- **One step of the VM.** -/
def step (bytecode : List BytecodeInstruction) (m : Machine) : Outcome :=
  match m.current bytecode with
  | some ins => m.execute ins
  | none => .unsupported

/-- The state after a step, if the VM goes on. -/
def goOn (bytecode : List BytecodeInstruction) (m : Machine) : Option Machine :=
  match m.step bytecode with
  | .next m' => some m'
  | _ => none

/-- The state after some steps. -/
abbrev run (bytecode : List BytecodeInstruction) (n : ℕ) (m : Machine) : Option Machine :=
  Lockstep.run (goOn bytecode) n m

/-- **LLVM defines the operation of an instruction**, on the variables the VM has: no division by zero
or beyond the type and no shift by the width or more; and where the width of a shift is 64 bits, its
count is a local whose dword is followed by another one, which is zero. -/
def Defined (ins : BytecodeInstruction) (m : Machine) : Prop :=
  ∀ op ty, ins.bc.integerOp = some (op, ty) →
    op.Defined ((m.value ins.argSWord1 ty).setWidth ty.bits) (m.rightOperand ins op ty) ∧
      (op.isShift = true → ty = .i64 →
        2 ≤ ins.argSWord2 ∧ m.dwords (ins.argSWord2 - 1) = 0)

/-- A dword of some arguments, which lie in their slots one after another. -/
def argumentDword : List DataType → List Word → ℕ → BitVec 32
  | [], _, _ => 0
  | slot :: slots, args, d =>
      if d < slot.sizeOnStackDWords then (args.headD 0 >>> (32 * d)).setWidth 32
      else argumentDword slots args.tail (d - slot.sizeOnStackDWords)

/-- **The VM at the start of a function**: its arguments are in its parameters, its locals and the value
register are zero. -/
def entry (context : FunctionContext) (args : List Word) : Machine where
  offset := 0
  dwords o :=
    if o ≤ 0 then
      argumentDword (scriptCallSlots context.engine context.scriptFunction)
        (args.drop (hiddenArguments context.scriptFunction)) (-o).toNat
    else 0
  valueRegister := 0

/-- LLVM defines the operation of the instruction the VM is at. -/
def DefinedAt (bytecode : List BytecodeInstruction) (m : Machine) : Prop :=
  ∀ ins, m.current bytecode = some ins → m.Defined ins

end Machine

end Asllvm
