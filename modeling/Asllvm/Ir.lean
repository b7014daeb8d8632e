import Mathlib.Data.Nat.Notation
import Mathlib.Data.Int.Notation

/-!
# The Emitted IR

The fragment of LLVM IR that `FunctionBuilder` emits. Values are virtual registers,
constants, arguments or addresses; instructions carry the types they operate at, as LLVM
instructions do. A basic block is the raw list of what the builder appended to it, so a
block with no terminator, or with something after its terminator, can be written down: that
neither happens is a theorem about the translator, not a convention of the syntax.

Pointer casts and constant-index `getelementptr`s into an alloca emit nothing that computes;
they are folded into the typed value (`Value`) and the `frame` operand. Debug intrinsics are
left out. A block also holds a `marker` where the code of each bytecode instruction starts,
standing for the debug location `translate_instruction` sets before it emits anything.
-/

namespace Asllvm

/-- The LLVM types the translator uses. -/
inductive Ty
  | void
  | i1
  | i8
  | i16
  | i32
  | i64
  | f32
  | f64
  | struct (typeId : ℤ)
  | ptr (pointee : Ty)
deriving DecidableEq, Repr

namespace Ty

/-- `StandardTypes::iptr`. -/
abbrev iptr : Ty := .i64

/-- `StandardTypes::pvoid`. -/
abbrev pvoid : Ty := .ptr .i8

/-- `StandardTypes::vm_state`. -/
abbrev vmState : Ty := .i8

/-- `isFloatingPointTy()`. -/
def isFloatingPoint : Ty → Bool
  | .f32 | .f64 => true
  | _ => false

/-- The width of a first-class value in bits. -/
def bits : Ty → ℕ
  | .i1 => 1
  | .i8 => 8
  | .i16 => 16
  | .i32 | .f32 => 32
  | .i64 | .f64 | .ptr _ => 64
  | .void | .struct _ => 0

/-- The bytes a load or a store of the type touches, which is also the size of its alloca. -/
def storeSize : Ty → ℕ
  | .i1 | .i8 => 1
  | .i16 => 2
  | .i32 | .f32 => 4
  | .i64 | .f64 | .ptr _ => 8
  | .void | .struct _ => 0

end Ty

/-- The allocas of a translated function: the dword array of locals and temporaries, one
alloca for each parameter slot (by its offset in the frame), and the two registers. -/
inductive AllocaId
  | storage
  | parameter (offset : ℤ)
  | valueRegister
  | objectRegister
deriving DecidableEq, Repr

/-- An operand: a virtual register, a constant, an argument of the function, the address
`offset` bytes into an alloca, the address of the `asCScriptFunction` with an id, the code of
a script or system function, or the address of a bytecode instruction. -/
inductive Operand
  | reg (r : ℕ)
  | const (v : BitVec 64)
  | arg (k : ℕ)
  | frame (slot : AllocaId) (offset : ℤ)
  | descriptor (id : ℤ)
  | scriptFunction (id : ℤ)
  | systemFunction (id : ℤ)
  | bytecode (offset : ℕ)
deriving DecidableEq, Repr

/-- An `llvm::Value*`: an operand with its type. -/
structure Value where
  op : Operand
  ty : Ty
deriving DecidableEq, Repr

/-- `llvm::Instruction::BinaryOps`. -/
inductive BinOp
  | add | sub | mul | sdiv | udiv | srem | urem | and | or | xor | shl | lshr | ashr
  | fadd | fsub | fmul | fdiv | frem
deriving DecidableEq, Repr

/-- `llvm::Instruction::CastOps`. -/
inductive CastOp
  | trunc | zext | sext | fptosi | fptoui | sitofp | uitofp | fptrunc | fpext
deriving DecidableEq, Repr

/-- The integer predicates of `llvm::CmpInst`. -/
inductive Pred
  | eq | ne | slt | sge | sgt | sle | ult | ugt
deriving DecidableEq, Repr

/-- The ordered floating-point predicates the translator uses. -/
inductive FPred
  | olt | ogt
deriving DecidableEq, Repr

/-- `StandardFunctions`: the functions of `asllvm::detail::runtime`. -/
inductive RuntimeFunction
  | alloc
  | free
  | newScriptObject
  | scriptVtableLookup
  | systemVtableLookup
  | callObjectMethod
  | panic
  | setInternalException
  | prepareSystemCall
  | checkExecutionStatus
deriving DecidableEq, Repr

/-- What a call instruction calls: a function of the runtime, the implementation of a script
function, or the native code of a system function. -/
inductive Callee
  | runtime (f : RuntimeFunction)
  | script (target : Operand)
  | system (target : Operand)
deriving DecidableEq, Repr

/-- Instructions other than terminators. `gep dst base index indexTy scale` is the address
`base + scale * index`. A call defines a register unless it returns nothing. -/
inductive Instr
  | alloca (slot : AllocaId) (bytes : ℕ)
  | load (dst : ℕ) (ty : Ty) (ptr : Operand)
  | store (ty : Ty) (value ptr : Operand)
  | binop (dst : ℕ) (op : BinOp) (ty : Ty) (lhs rhs : Operand)
  | icmp (dst : ℕ) (pred : Pred) (ty : Ty) (lhs rhs : Operand)
  | fcmp (dst : ℕ) (pred : FPred) (ty : Ty) (lhs rhs : Operand)
  | select (dst : ℕ) (cond ifTrue ifFalse : Operand)
  | cast (dst : ℕ) (op : CastOp) (src : Ty) (value : Operand) (dstTy : Ty)
  | gep (dst : ℕ) (base index : Operand) (indexTy : Ty) (scale : ℕ)
  | memset (ptr : Operand) (byte : BitVec 8) (bytes : ℕ)
  | call (dst : Option ℕ) (callee : Callee) (args : List Value)
deriving DecidableEq, Repr

/-- Basic blocks. `insert_label` creates one block for each labelled offset, and each
`emit_check_boolean` a pair of blocks, numbered in the order of creation. -/
inductive BlockId
  | entry
  | label (offset : ℤ)
  | setVmException (n : ℕ)
  | doNotSetVmException (n : ℕ)
deriving DecidableEq, Repr

/-- Terminators. A `switch` goes to the `i`-th case block on the value `i`. -/
inductive Terminator
  | ret (value : Operand)
  | retVoid
  | br (target : BlockId)
  | condBr (cond : Operand) (ifTrue ifFalse : BlockId)
  | switch (value : Operand) (default : BlockId) (cases : List BlockId)
deriving DecidableEq, Repr

/-- The blocks a terminator may transfer control to. -/
def Terminator.successors : Terminator → List BlockId
  | .ret _ | .retVoid => []
  | .br b => [b]
  | .condBr _ t f => [t, f]
  | .switch _ d cases => d :: cases

/-- What a block holds: instructions, a terminator, and the markers of bytecode offsets. -/
inductive Item
  | marker (offset : ℕ)
  | instr (i : Instr)
  | term (t : Terminator)
deriving DecidableEq, Repr

/-- Whether an item is a terminator. -/
def Item.isTerminator : Item → Bool
  | .term _ => true
  | _ => false

end Asllvm
