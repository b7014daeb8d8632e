import Asllvm.Lib.Bytes
import Asllvm.Placement

/-!
# Executing the IR

What an emitted function does. A value is a 64-bit word, of which a type uses the low bits;
memory is flat (`Bytes.Mem`), and the allocas of an activation lie in it at disjoint places
(`FrameLayout`).

`LocalState.step` is one step inside a function. It says what LLVM says where LLVM defines the
result, and `undefined` where it does not: an access through the address of an alloca that is
not inside that alloca, a division by zero or one that overflows, a shift by the width of its
type or more, falling off the end of a block. Calls and returns leave the function, and are
left to the machines built on top. Floating-point arithmetic is a parameter (`FloatOps`).
-/

namespace Asllvm

/-- A 64-bit word. -/
abbrev Word : Type := BitVec 64

/-- The floating-point operations of the host. -/
structure FloatOps where
  binop : BinOp → Ty → Word → Word → Word
  cmp : FPred → Ty → Word → Word → Bool
  cast : CastOp → Ty → Word → Ty → Word

/-- Where the things an operand can name lie in memory. -/
structure Symbols where
  descriptor : ℤ → Word
  scriptFunction : ℤ → Word
  systemFunction : ℤ → Word
  bytecode : ℕ → Word

/-- Where the allocas of an activation lie: inside the address space, and apart. -/
structure FrameLayout where
  address : AllocaId → ℕ
  size : AllocaId → ℕ
  bounded : ∀ slot, address slot + size slot < 2 ^ 64
  disjoint : ∀ slot slot', slot ≠ slot' →
    address slot + size slot ≤ address slot' ∨ address slot' + size slot' ≤ address slot

/-- What an activation of a function does not change: its code and arguments, and where its
allocas and everything else lie. -/
structure Env where
  blocks : BlockId → List Item
  args : List Word
  layout : FrameLayout
  symbols : Symbols
  floats : FloatOps

/-- The virtual registers of an activation. -/
abbrev Regs : Type := ℕ → Word

/-- The bits of a word that a type uses. -/
def Ty.truncate (ty : Ty) (v : Word) : Word := (v.setWidth ty.bits).setWidth 64

theorem Ty.truncate_ptr (ty : Ty) (v : Word) : (Ty.ptr ty).truncate v = v := by
  rw [truncate, bits, BitVec.setWidth_eq, BitVec.setWidth_eq]

/-- The word an operand stands for. -/
def Operand.eval (env : Env) (regs : Regs) : Operand → Word
  | .reg r => regs r
  | .const v => v
  | .arg k => env.args.getD k 0
  | .frame slot offset => BitVec.ofInt 64 (env.layout.address slot + offset)
  | .descriptor id => env.symbols.descriptor id
  | .scriptFunction id => env.symbols.scriptFunction id
  | .systemFunction id => env.symbols.systemFunction id
  | .bytecode offset => env.symbols.bytecode offset

/-- An access of `n` bytes through `ptr` is inside the alloca `ptr` names, if it names one. -/
def Env.accessible (env : Env) (ptr : Operand) (n : ℕ) : Bool :=
  match ptr with
  | .frame slot offset => decide (0 ≤ offset ∧ offset + n ≤ env.layout.size slot)
  | _ => true

/-- The result of an integer operation on values of `w` bits, where LLVM defines it. -/
def BinOp.evalInt (op : BinOp) {w : ℕ} (x y : BitVec w) : Option (BitVec w) :=
  match op with
  | .add => some (x + y)
  | .sub => some (x - y)
  | .mul => some (x * y)
  | .and => some (x &&& y)
  | .or => some (x ||| y)
  | .xor => some (x ^^^ y)
  | .sdiv => if y = 0 ∨ x = BitVec.intMin w ∧ y = -1 then none else some (x.sdiv y)
  | .srem => if y = 0 ∨ x = BitVec.intMin w ∧ y = -1 then none else some (x.srem y)
  | .udiv => if y = 0 then none else some (x / y)
  | .urem => if y = 0 then none else some (x % y)
  | .shl => if w ≤ y.toNat then none else some (x <<< y.toNat)
  | .lshr => if w ≤ y.toNat then none else some (x >>> y.toNat)
  | .ashr => if w ≤ y.toNat then none else some (x.sshiftRight y.toNat)
  | .fadd | .fsub | .fmul | .fdiv | .frem => none

/-- The result of an operation at a type. -/
def BinOp.eval (floats : FloatOps) (op : BinOp) (ty : Ty) (a b : Word) : Option Word :=
  if ty.isFloatingPoint then some (floats.binop op ty a b)
  else (op.evalInt (a.setWidth ty.bits) (b.setWidth ty.bits)).map (·.setWidth 64)

/-- A comparison of values of `w` bits. -/
def Pred.holds (pred : Pred) {w : ℕ} (x y : BitVec w) : Bool :=
  match pred with
  | .eq => x == y
  | .ne => x != y
  | .slt => x.slt y
  | .sge => y.sle x
  | .sgt => y.slt x
  | .sle => x.sle y
  | .ult => x.ult y
  | .ugt => y.ult x

/-- The result of a conversion. -/
def CastOp.eval (floats : FloatOps) (op : CastOp) (src : Ty) (v : Word) (dst : Ty) : Word :=
  match op with
  | .trunc | .zext => dst.truncate (src.truncate v)
  | .sext => dst.truncate ((v.setWidth src.bits).signExtend 64)
  | _ => floats.cast op src v dst

/-- A truth value as a word. -/
def ofBool (b : Bool) : Word := if b then 1 else 0

/-- The effect of an instruction other than a call on registers and memory, where LLVM defines
it. -/
def Instr.exec (env : Env) (regs : Regs) (mem : Bytes.Mem) : Instr → Option (Regs × Bytes.Mem)
  | .alloca _ _ => some (regs, mem)
  | .load dst ty ptr =>
      if env.accessible ptr ty.storeSize then
        let v := ty.truncate (Bytes.read mem (ptr.eval env regs).toNat ty.storeSize)
        some (Function.update regs dst v, mem)
      else none
  | .store ty value ptr =>
      if env.accessible ptr ty.storeSize then
        some (regs, Bytes.write mem (ptr.eval env regs).toNat ty.storeSize
          (ty.truncate (value.eval env regs)))
      else none
  | .binop dst op ty lhs rhs =>
      (op.eval env.floats ty (lhs.eval env regs) (rhs.eval env regs)).map fun v =>
        (Function.update regs dst v, mem)
  | .icmp dst pred ty lhs rhs =>
      let b := pred.holds ((lhs.eval env regs).setWidth ty.bits)
        ((rhs.eval env regs).setWidth ty.bits)
      some (Function.update regs dst (ofBool b), mem)
  | .fcmp dst pred ty lhs rhs =>
      let b := env.floats.cmp pred ty (lhs.eval env regs) (rhs.eval env regs)
      some (Function.update regs dst (ofBool b), mem)
  | .select dst cond ifTrue ifFalse =>
      let v := if (cond.eval env regs).getLsbD 0 then ifTrue.eval env regs
        else ifFalse.eval env regs
      some (Function.update regs dst v, mem)
  | .cast dst op src value dstTy =>
      some (Function.update regs dst (op.eval env.floats src (value.eval env regs) dstTy), mem)
  | .gep dst base index indexTy scale =>
      let i := ((index.eval env regs).setWidth indexTy.bits).signExtend 64
      some (Function.update regs dst (base.eval env regs + BitVec.ofNat 64 scale * i), mem)
  | .memset ptr byte bytes =>
      if env.accessible ptr bytes then
        some (regs, Bytes.fill mem (ptr.eval env regs).toNat bytes byte)
      else none
  | .call _ _ _ => none

/-- The state of an activation: where it is, its registers, the memory, and the bytecode
instruction whose code it entered last. -/
structure LocalState where
  position : Position
  regs : Regs
  mem : Bytes.Mem
  current : Option ℕ

/-- What one step inside a function comes to. -/
inductive Outcome
  | next (s : LocalState)
  | call (dst : Option ℕ) (callee : Callee) (args : List Value)
  | ret (value : Word)
  | retVoid
  | undefined

/-- The block a terminator goes to. -/
def Terminator.goto (env : Env) (regs : Regs) : Terminator → Option BlockId
  | .br target => some target
  | .condBr cond ifTrue ifFalse =>
      some (if (cond.eval env regs).getLsbD 0 then ifTrue else ifFalse)
  | .switch value default cases =>
      some (cases[((value.eval env regs).setWidth 32).toNat]?.getD default)
  | .ret _ | .retVoid => none

/-- One step inside a function. -/
def LocalState.step (env : Env) (s : LocalState) : Outcome :=
  match itemAt env.blocks s.position with
  | none => .undefined
  | some (.marker offset) =>
      .next { s with position := s.position.next, current := some offset }
  | some (.instr (.call dst callee args)) => .call dst callee args
  | some (.instr i) =>
      match i.exec env s.regs s.mem with
      | some (regs, mem) => .next { s with position := s.position.next, regs := regs, mem := mem }
      | none => .undefined
  | some (.term (.ret value)) => .ret (value.eval env s.regs)
  | some (.term .retVoid) => .retVoid
  | some (.term t) =>
      match t.goto env s.regs with
      | some b => .next { s with position := (b, 0) }
      | none => .undefined

/-- `n` steps inside a function, none of which leaves it. -/
def LocalState.steps (env : Env) : ℕ → LocalState → Option LocalState
  | 0, s => some s
  | n + 1, s =>
      match s.step env with
      | .next s' => steps env n s'
      | _ => none

section Steps

variable {env : Env} {s s' : LocalState}

/-- Starting the code of an instruction. -/
theorem LocalState.step_marker {o : ℕ} (h : itemAt env.blocks s.position = some (.marker o)) :
    s.step env = .next { s with position := s.position.next, current := some o } := by
  rw [LocalState.step, h]

/-- A call. -/
theorem LocalState.step_call {dst : Option ℕ} {callee : Callee} {args : List Value}
    (h : itemAt env.blocks s.position = some (.instr (.call dst callee args))) :
    s.step env = .call dst callee args := by
  rw [LocalState.step, h]

/-- An instruction other than a call. -/
theorem LocalState.step_instr {i : Instr} {regs : Regs} {mem : Bytes.Mem}
    (h : itemAt env.blocks s.position = some (.instr i))
    (hexec : i.exec env s.regs s.mem = some (regs, mem)) :
    s.step env = .next { s with position := s.position.next, regs := regs, mem := mem } := by
  rw [LocalState.step, h]
  cases i with
  | call => exact absurd hexec (Option.some_ne_none _).symm
  | _ => dsimp only; rw [hexec]

/-- A branch. -/
theorem LocalState.step_branch {t : Terminator} {b : BlockId}
    (h : itemAt env.blocks s.position = some (.term t)) (hgoto : t.goto env s.regs = some b) :
    s.step env = .next { s with position := (b, 0) } := by
  rw [LocalState.step, h]
  cases t with
  | ret | retVoid => exact absurd hgoto (Option.some_ne_none _).symm
  | _ => dsimp only; rw [hgoto]

theorem LocalState.steps_succ {n : ℕ} (h : s.step env = .next s') :
    s.steps env (n + 1) = s'.steps env n := by
  rw [LocalState.steps, h]

/-- The address of an alloca, without wrapping around. -/
theorem Operand.eval_frame {regs : Regs} {slot : AllocaId} {offset : ℤ} (hlow : 0 ≤ offset)
    (hhigh : offset ≤ env.layout.size slot) :
    ((Operand.frame slot offset).eval env regs).toNat = env.layout.address slot + offset.toNat := by
  have hbounded := env.layout.bounded slot
  rw [Operand.eval, BitVec.toNat_ofInt]
  omega

end Steps

/-- The state after a call that returned `value` and left the memory `mem`. -/
def LocalState.resume (s : LocalState) (dst : Option ℕ) (value : Word) (mem : Bytes.Mem) :
    LocalState :=
  { s with
    position := s.position.next
    regs := match dst with
      | some r => Function.update s.regs r value
      | none => s.regs
    mem := mem }

/-- The register of a call holds what was answered. -/
theorem LocalState.resume_regs_self (s : LocalState) (r : ℕ) (value : Word) (mem : Bytes.Mem) :
    (s.resume (some r) value mem).regs r = value := Function.update_self ..

end Asllvm
