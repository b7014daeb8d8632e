import Mathlib.Data.Nat.Notation
import Mathlib.Data.Int.Notation

/-!
# Bytecode Instructions

A bytecode is an array of dwords. `walk_bytecode` visits its instructions one after another,
each starting where the previous one ends; here a bytecode is the list of the instructions
that walk visits (`Walked`). An instruction keeps the dwords it is stored in, and its operands
are read from them the way the accessors of `BytecodeInstruction` do: the low byte of the
first dword is the opcode, its high half the first word argument.
-/

namespace Asllvm

/-- The opcodes `translate_instruction` has a case for, under the mnemonics of the source;
`other` stands for every byte that reaches its `default` case. -/
inductive Opcode
  | PopPtr | PshGPtr | PshC4 | PshV4 | PSF | SwapPtr | NOT | PshG4 | LdGRdR4 | CALL | RET
  | JMP | JZ | JNZ | JS | JNS | JP | JNP | TZ | TNZ | TS | TNS | TP | TNP | NEGi | NEGf
  | NEGd | INCi16 | INCi8 | DECi16 | DECi8 | INCi | DECi | INCf | DECf | INCd | DECd
  | IncVi | DecVi | BNOT | BAND | BOR | BXOR | BSLL | BSRL | BSRA | COPY | PshC8 | PshVPtr
  | RDSPtr | CMPd | CMPu | CMPf | CMPi | CMPIi | CMPIf | CMPIu | JMPP | PopRPtr | PshRPtr
  | STR | CALLSYS | Thiscall1 | CALLBND | SUSPEND | ALLOC | FREE | LOADOBJ | STOREOBJ
  | GETOBJ | REFCPY | CHKREF | GETOBJREF | GETREF | PshNull | ClrVPtr | OBJTYPE | TYPEID
  | SetV1 | SetV2 | SetV4 | SetV8 | ADDSi | CpyVtoV4 | CpyVtoV8 | CpyVtoR4 | CpyVtoR8
  | CpyVtoG4 | CpyRtoV4 | CpyRtoV8 | CpyGtoV4 | WRTV1 | WRTV2 | WRTV4 | WRTV8 | RDR1 | RDR2
  | RDR4 | RDR8 | LDG | LDV | PGA | CmpPtr | VAR | iTOf | fTOi | uTOf | fTOu | sbTOi
  | swTOi | ubTOi | uwTOi | dTOi | dTOu | dTOf | iTOd | uTOd | fTOd | ADDi | SUBi | MULi
  | DIVi | MODi | ADDf | SUBf | MULf | DIVf | MODf | ADDd | SUBd | MULd | DIVd | MODd
  | ADDIi | SUBIi | MULIi | ADDIf | SUBIf | MULIf | SetG4 | ChkRefS | ChkNullV | CALLINTF
  | iTOb | iTOw | Cast | i64TOi | uTOi64 | iTOi64 | fTOi64 | dTOi64 | fTOu64 | dTOu64
  | i64TOf | u64TOf | i64TOd | u64TOd | NEGi64 | INCi64 | DECi64 | BNOT64 | ADDi64 | SUBi64
  | MULi64 | DIVi64 | MODi64 | BAND64 | BOR64 | BXOR64 | BSLL64 | BSRL64 | BSRA64 | CMPi64
  | CMPu64 | ChkNullS | ClrHi | JitEntry | CallPtr | FuncPtr | LoadThisR | PshV8 | DIVu
  | MODu | DIVu64 | MODu64 | LoadRObjR | LoadVObjR | RefCpyV | JLowZ | JLowNZ | AllocMem
  | SetListSize | PshListElmnt | SetListType | POWi | POWu | POWf | POWd | POWdi | POWi64
  | POWu64 | other
deriving DecidableEq, Repr

/-- The conditional jumps. -/
def Opcode.isConditionalJump : Opcode → Bool
  | .JZ | .JNZ | .JS | .JNS | .JP | .JNP | .JLowZ | .JLowNZ => true
  | _ => false

/-- The opcodes after which control does not simply go on. -/
def Opcode.endsBlock (bc : Opcode) : Bool :=
  bc == .RET || bc == .JMP || bc == .JMPP || bc.isConditionalJump

/-- `asSBCInfo` with the instruction size already looked up in `asBCTypeSize`. `stackInc` is
the declared change of the stack pointer in dwords, `0xFFFF` when it varies. A jump takes two
dwords: its opcode, and how far it goes. -/
structure SBCInfo where
  bc : Opcode
  size : ℕ
  stackInc : ℤ
  jump_size : bc = .JMP ∨ bc.isConditionalJump = true → size = 2
deriving DecidableEq, Repr

/-- `BytecodeInstruction`: `pointer` holds the dwords from the start of the instruction on,
`offset` the position of the first of them in the bytecode. -/
structure BytecodeInstruction where
  pointer : List (BitVec 32)
  info : SBCInfo
  offset : ℕ
deriving DecidableEq, Repr

namespace BytecodeInstruction

/-- The opcode of the instruction. -/
def bc (ins : BytecodeInstruction) : Opcode := ins.info.bc

/-- The offset of the instruction that follows in the bytecode. -/
def next (ins : BytecodeInstruction) : ℕ := ins.offset + ins.info.size

/-- `*(pointer + i)`. -/
def dword (ins : BytecodeInstruction) (i : ℕ) : BitVec 32 := ins.pointer.getD i 0

/-- `asBC_DWORDARG(pointer + offset)`. -/
def argDWord (ins : BytecodeInstruction) (offset : ℕ := 0) : BitVec 32 :=
  ins.dword (offset + 1)

/-- `asBC_INTARG(pointer + offset)`. -/
def argInt (ins : BytecodeInstruction) (offset : ℕ := 0) : ℤ := (ins.argDWord offset).toInt

/-- `asBC_QWORDARG(pointer + offset)`. -/
def argQWord (ins : BytecodeInstruction) (offset : ℕ := 0) : BitVec 64 :=
  ins.dword (offset + 2) ++ ins.dword (offset + 1)

/-- `asBC_PTRARG(pointer + offset)`; pointers have 64 bits. -/
def argPWord (ins : BytecodeInstruction) (offset : ℕ := 0) : BitVec 64 := ins.argQWord offset

/-- `asBC_WORDARG0(pointer)`: the high half of the first dword. -/
def argWord0 (ins : BytecodeInstruction) : BitVec 16 := (ins.dword 0).extractLsb' 16 16

/-- `asBC_SWORDARG0(pointer)`. -/
def argSWord0 (ins : BytecodeInstruction) : ℤ := ins.argWord0.toInt

/-- `asBC_SWORDARG1(pointer)`: the low half of the second dword. -/
def argSWord1 (ins : BytecodeInstruction) : ℤ := ((ins.dword 1).extractLsb' 0 16).toInt

/-- `asBC_SWORDARG2(pointer)`: the high half of the second dword. -/
def argSWord2 (ins : BytecodeInstruction) : ℤ := ((ins.dword 1).extractLsb' 16 16).toInt

/-- The offset a jump names: `offset + 2 + arg_int()`. -/
def target (ins : BytecodeInstruction) : ℤ := ins.offset + 2 + ins.argInt

end BytecodeInstruction

/-- The instructions `walk_bytecode` visits from `start` on: each one lies where the previous
one ends, and takes at least one dword. -/
def WalkedFrom : ℕ → List BytecodeInstruction → Prop
  | _, [] => True
  | start, ins :: rest => ins.offset = start ∧ 0 < ins.info.size ∧ WalkedFrom ins.next rest

/-- A walk visits the first instructions first. -/
theorem WalkedFrom.of_append {start : ℕ} {xs ys : List BytecodeInstruction}
    (h : WalkedFrom start (xs ++ ys)) : WalkedFrom start xs := by
  induction xs generalizing start with
  | nil => trivial
  | cons x xs ih => exact ⟨h.1, h.2.1, ih h.2.2⟩

theorem WalkedFrom.le_offset {start : ℕ} {xs : List BytecodeInstruction} {x : BytecodeInstruction}
    (h : WalkedFrom start xs) (hx : x ∈ xs) : start ≤ x.offset := by
  induction xs generalizing start with
  | nil => exact absurd hx List.not_mem_nil
  | cons y xs ih =>
      obtain ⟨rfl, hsize, hrest⟩ := h
      rcases List.mem_cons.mp hx with rfl | hx
      · exact Nat.le_refl _
      · have := ih hrest hx
        rw [BytecodeInstruction.next] at this
        omega

/-- The instructions before another one have lower offsets, those after it higher ones. -/
theorem WalkedFrom.lt_offset {start : ℕ} {pre post : List BytecodeInstruction}
    {ins : BytecodeInstruction} (h : WalkedFrom start (pre ++ ins :: post)) :
    (∀ x ∈ pre, x.offset < ins.offset) ∧ ∀ x ∈ post, ins.offset < x.offset := by
  induction pre generalizing start with
  | nil =>
      obtain ⟨-, hsize, hpost⟩ := h
      refine ⟨fun x hx => absurd hx List.not_mem_nil, fun x hx => ?_⟩
      have := hpost.le_offset hx
      rw [BytecodeInstruction.next] at this
      omega
  | cons y pre ih =>
      obtain ⟨rfl, hsize, hrest⟩ := h
      refine ⟨fun x hx => ?_, (ih hrest).2⟩
      rcases List.mem_cons.mp hx with rfl | hx
      · have := hrest.le_offset (List.mem_append_right pre List.mem_cons_self)
        rw [BytecodeInstruction.next] at this
        omega
      · exact (ih hrest).1 x hx

/-- An instruction lies where the one before it ends. -/
theorem WalkedFrom.next_offset {start : ℕ} {pre post : List BytecodeInstruction}
    {ins next : BytecodeInstruction} (h : WalkedFrom start (pre ++ ins :: next :: post)) :
    next.offset = ins.next := by
  induction pre generalizing start with
  | nil => exact h.2.2.1
  | cons y pre ih => exact ih h.2.2

/-- **Instructions are told apart by their offsets.** -/
theorem WalkedFrom.split_unique {start : ℕ} {pre pre' post post' : List BytecodeInstruction}
    {ins ins' : BytecodeInstruction} (h : WalkedFrom start (pre ++ ins :: post))
    (heq : pre ++ ins :: post = pre' ++ ins' :: post') (ho : ins.offset = ins'.offset) :
    pre = pre' ∧ ins = ins' ∧ post = post' := by
  have hlt := h.lt_offset
  rw [heq] at h
  have hlt' := h.lt_offset
  rcases List.append_eq_append_iff.mp heq with ⟨ws, rfl, hws⟩ | ⟨ws, rfl, hws⟩
  · cases ws with
    | nil =>
        rw [List.nil_append, List.cons.injEq] at hws
        exact ⟨(List.append_nil pre).symm, hws⟩
    | cons w ws =>
        obtain ⟨rfl, -⟩ := List.cons.inj hws
        have := hlt'.1 ins (List.mem_append_right pre List.mem_cons_self)
        omega
  · cases ws with
    | nil =>
        rw [List.nil_append, List.cons.injEq] at hws
        exact ⟨List.append_nil pre', hws.1.symm, hws.2.symm⟩
    | cons w ws =>
        obtain ⟨rfl, -⟩ := List.cons.inj hws
        have := hlt.1 ins' (List.mem_append_right pre' List.mem_cons_self)
        omega

theorem WalkedFrom.eq_of_offset {start : ℕ} {xs : List BytecodeInstruction}
    {ins ins' : BytecodeInstruction} (h : WalkedFrom start xs) (hins : ins ∈ xs) (hins' : ins' ∈ xs)
    (ho : ins.offset = ins'.offset) : ins = ins' := by
  obtain ⟨pre, post, rfl⟩ := List.append_of_mem hins
  obtain ⟨pre', post', heq⟩ := List.append_of_mem hins'
  exact (h.split_unique heq ho).2.1

/-- The instruction sequence of a whole bytecode. -/
abbrev Walked (bytecode : List BytecodeInstruction) : Prop := WalkedFrom 0 bytecode

end Asllvm
