import Mathlib.Data.List.Chain
import Asllvm.StackDepth

/-!
# Walking a Bytecode

`walk_bytecode` as the source has it: over an array of dwords, from the start of one instruction to
the start of the next one, which is the size of the first one further. The size is looked up by the
first byte of the instruction; only the start of an instruction is compared with the end of the
array. What a pass does with an instruction may fail, and then the exception ends the walk.

* `InstructionTable` — `asBCInfo`, with what AngelScript says about its sizes.
* `walkBytecode` — the walk of one pass, for a number of turns.
* `Pass.dwordsRead` — how many dwords of an instruction a pass reads.
* `ComesFrom`, `Starts` — the places of an array a walk comes to.
* `EndsInside` — the walk of a pass ends, never visits a place twice and stays inside the array.

## Main results

* `translateOpcode_congr`, `preprocessInstruction_congr`, `disassemble_congr` — what a pass does with
  an instruction depends on the dwords that it is said to read.
* `foldlM_of_walkBytecode`, `walkedFrom_of_walkBytecode` — a walk is a fold over the instructions
  that it visits, which lie one behind the other.
* `endsInside_iff` — a walk ends and stays inside the array exactly if it does so at every place it
  comes to.
* `translateBytecode_of_walks` — the walks compute `translateBytecode` of what they visit.
* `walks_end_iff` — the walks of `translate_bytecode` end, stay inside the array and report what is
  not an instruction, exactly if each instruction a pass comes to takes a dword and is whole.
-/

open StateExcept

namespace Asllvm

/-! ### The table of the instructions -/

/-- `asEBCType`: the kinds of instructions, by their operands. -/
inductive BCType
  | asBCTYPE_INFO | asBCTYPE_NO_ARG | asBCTYPE_W_ARG | asBCTYPE_wW_ARG | asBCTYPE_DW_ARG
  | asBCTYPE_rW_DW_ARG | asBCTYPE_QW_ARG | asBCTYPE_DW_DW_ARG | asBCTYPE_wW_rW_rW_ARG
  | asBCTYPE_wW_QW_ARG | asBCTYPE_wW_rW_ARG | asBCTYPE_rW_ARG | asBCTYPE_wW_DW_ARG
  | asBCTYPE_wW_rW_DW_ARG | asBCTYPE_rW_rW_ARG | asBCTYPE_wW_W_ARG | asBCTYPE_QW_DW_ARG
  | asBCTYPE_rW_QW_ARG | asBCTYPE_W_DW_ARG | asBCTYPE_rW_W_DW_ARG | asBCTYPE_rW_DW_DW_ARG
deriving DecidableEq, Repr

/-- `asBCInfo`, by the opcode byte: an instruction takes one to four dwords, and what is not an
instruction at run time takes none and has no case of its own. -/
structure InstructionTable where
  info : BitVec 8 → SBCInfo
  type : BitVec 8 → BCType
  size_le : ∀ op, (info op).size ≤ 4
  size_zero_iff : ∀ op, (info op).size = 0 ↔ type op = .asBCTYPE_INFO
  other_of_info : ∀ op, type op = .asBCTYPE_INFO → (info op).bc = .other

/-- The opcode byte of the dword at a place of a bytecode. -/
def opcodeAt (bytecode : List (BitVec 32)) (o : ℕ) : BitVec 8 := (bytecode.getD o 0).setWidth 8

namespace InstructionTable

variable (table : InstructionTable) (bytecode : List (BitVec 32))

/-- The instruction at a place of a bytecode. -/
def instructionAt (o : ℕ) : BytecodeInstruction :=
  ⟨bytecode.drop o, table.info (opcodeAt bytecode o), o⟩

/-- The number of dwords of the instruction at a place. -/
def sizeAt (o : ℕ) : ℕ := (table.info (opcodeAt bytecode o)).size

end InstructionTable

/-- `walk_bytecode(func)`, from an offset on: the instructions that it visits and how it ends, if it
has ended after the given number of turns. -/
def walkBytecode {σ : Type} (table : InstructionTable) (bytecode : List (BitVec 32))
    (func : σ → BytecodeInstruction → Except EmitError σ) :
    ℕ → ℕ → σ → Option (List BytecodeInstruction × Except EmitError σ)
  | 0, _, _ => none
  | turns + 1, current, s =>
      if current < bytecode.length then
        match func s (table.instructionAt bytecode current) with
        | .error e => some ([table.instructionAt bytecode current], .error e)
        | .ok s' =>
            (walkBytecode table bytecode func turns (current + table.sizeAt bytecode current)
              s').map fun walk => (table.instructionAt bytecode current :: walk.1, walk.2)
      else some ([], .ok s)

/-! ### What the passes read -/

/-- The passes of `translate_bytecode`. -/
inductive Pass
  | disassemble
  | preprocess
  | translate
deriving DecidableEq, Repr

/-- The passes that are made: the disassembly is printed only by a verbose compiler. -/
def passes (verbose : Bool) : List Pass :=
  if verbose then [.disassemble, .preprocess, .translate] else [.preprocess, .translate]

/-- The operands `disassemble` prints for a kind of instructions. -/
def BCType.operands (ins : BytecodeInstruction) : BCType → List ℤ
  | .asBCTYPE_INFO | .asBCTYPE_NO_ARG => []
  | .asBCTYPE_W_ARG | .asBCTYPE_wW_ARG | .asBCTYPE_rW_ARG => [ins.argSWord0]
  | .asBCTYPE_DW_ARG => [ins.argInt]
  | .asBCTYPE_rW_DW_ARG | .asBCTYPE_wW_DW_ARG | .asBCTYPE_W_DW_ARG => [ins.argSWord0, ins.argInt]
  | .asBCTYPE_QW_ARG => [ins.argPWord.toNat]
  | .asBCTYPE_DW_DW_ARG => [ins.argInt, ins.argInt 1]
  | .asBCTYPE_wW_rW_rW_ARG => [ins.argSWord0, ins.argSWord1, ins.argSWord2]
  -- both words of the operand lie one dword further than the operand does
  | .asBCTYPE_wW_QW_ARG | .asBCTYPE_rW_QW_ARG => [ins.argSWord0, (ins.argPWord 1).toNat]
  | .asBCTYPE_wW_rW_ARG | .asBCTYPE_rW_rW_ARG | .asBCTYPE_wW_W_ARG =>
      [ins.argSWord0, ins.argSWord1]
  | .asBCTYPE_wW_rW_DW_ARG | .asBCTYPE_rW_W_DW_ARG => [ins.argSWord0, ins.argSWord1, ins.argInt 1]
  | .asBCTYPE_QW_DW_ARG => [ins.argPWord.toNat, ins.argInt 2]
  | .asBCTYPE_rW_DW_DW_ARG => [ins.argSWord0, ins.argInt 1, ins.argInt 2]

/-- `disassemble`: the operands that are printed, if anything is. -/
def disassemble (context : FunctionContext) (type : BCType) (ins : BytecodeInstruction) :
    Except EmitError (Option (List ℤ)) :=
  match ins.bc with
  | .JitEntry | .SUSPEND => .ok none
  | .CALL | .CALLSYS | .Thiscall1 =>
      match context.engine.getFunctionById ins.argInt with
      | some function => .ok (some [function.id])
      | none => .error (if context.config.assertions then .assertion else .invalid)
  | _ => .ok (some (type.operands ins))

/-- The dwords `disassemble` reads for a kind of instructions. -/
def BCType.dwordsRead : BCType → ℕ
  | .asBCTYPE_INFO | .asBCTYPE_NO_ARG | .asBCTYPE_W_ARG | .asBCTYPE_wW_ARG | .asBCTYPE_rW_ARG => 1
  | .asBCTYPE_DW_ARG | .asBCTYPE_rW_DW_ARG | .asBCTYPE_wW_DW_ARG | .asBCTYPE_W_DW_ARG => 2
  | .asBCTYPE_wW_rW_rW_ARG | .asBCTYPE_wW_rW_ARG | .asBCTYPE_rW_rW_ARG | .asBCTYPE_wW_W_ARG => 2
  | .asBCTYPE_QW_ARG | .asBCTYPE_DW_DW_ARG => 3
  | .asBCTYPE_wW_rW_DW_ARG | .asBCTYPE_rW_W_DW_ARG => 3
  | .asBCTYPE_wW_QW_ARG | .asBCTYPE_rW_QW_ARG | .asBCTYPE_QW_DW_ARG | .asBCTYPE_rW_DW_DW_ARG => 4

/-- The dwords `translate_instruction` reads of an instruction. -/
def Opcode.dwordsRead : Opcode → ℕ
  | .ALLOC | .SetG4 => 4
  | .PshGPtr | .PshG4 | .PshC8 | .FREE | .REFCPY | .RefCpyV | .OBJTYPE | .SetV8 | .CpyVtoG4
  | .CpyGtoV4 | .LDG | .PGA | .FuncPtr | .ADDIi | .SUBIi | .MULIi | .ADDIf | .SUBIf | .MULIf
  | .SetListSize => 3
  | .PshC4 | .CALL | .CALLINTF | .CALLSYS | .Thiscall1 | .JMP | .JZ | .JNZ | .JS | .JNS | .JP | .JNP
  | .JLowZ | .JLowNZ | .BAND | .BOR | .BXOR | .BSLL | .BSRL | .BSRA | .CMPd | .CMPu | .CMPf | .CMPi
  | .CMPIi | .CMPIf | .CMPIu | .SetV1 | .SetV2 | .SetV4 | .CpyVtoV4 | .CpyVtoV8 | .dTOi | .dTOu
  | .dTOf | .iTOd | .uTOd | .fTOd | .ADDi | .SUBi | .MULi | .DIVi | .MODi | .ADDf | .SUBf | .MULf
  | .DIVf | .MODf | .ADDd | .SUBd | .MULd | .DIVd | .MODd | .i64TOi | .uTOi64 | .iTOi64 | .fTOi64
  | .fTOu64 | .i64TOf | .u64TOf | .ADDi64 | .SUBi64 | .MULi64 | .DIVi64 | .MODi64 | .BAND64 | .BOR64
  | .BXOR64 | .BSLL64 | .BSRL64 | .BSRA64 | .CMPi64 | .CMPu64 | .DIVu | .MODu | .DIVu64 | .MODu64
  | .LoadRObjR | .AllocMem | .PshListElmnt => 2
  | _ => 1

/-- How many dwords of the instruction at a place a pass reads; the walk itself reads the opcode. -/
def Pass.dwordsRead (table : InstructionTable) (op : BitVec 8) : Pass → ℕ
  | .disassemble =>
      match (table.info op).bc with
      | .JitEntry | .SUSPEND => 1
      | .CALL | .CALLSYS | .Thiscall1 => 2
      | _ => (table.type op).dwordsRead
  | .preprocess =>
      match (table.info op).bc with
      | .JMP => 2
      | bc => if bc.isConditionalJump then 2 else 1
  | .translate => (table.info op).bc.dwordsRead

section Reads

variable {ins ins' : BytecodeInstruction}

/-- Two instructions of the same kind, at the same place, with the same first `n` dwords. -/
structure SameUpTo (n : ℕ) (ins ins' : BytecodeInstruction) : Prop where
  info : ins.info = ins'.info
  offset : ins.offset = ins'.offset
  dword : ∀ i < n, ins.dword i = ins'.dword i

namespace SameUpTo

variable {n : ℕ}

theorem argWord0 (h : SameUpTo n ins ins') (hn : 1 ≤ n) : ins.argWord0 = ins'.argWord0 := by
  rw [BytecodeInstruction.argWord0, BytecodeInstruction.argWord0, h.dword 0 hn]

theorem argSWord0 (h : SameUpTo n ins ins') (hn : 1 ≤ n) : ins.argSWord0 = ins'.argSWord0 := by
  rw [BytecodeInstruction.argSWord0, BytecodeInstruction.argSWord0, h.argWord0 hn]

theorem argSWord1 (h : SameUpTo n ins ins') (hn : 2 ≤ n) : ins.argSWord1 = ins'.argSWord1 := by
  rw [BytecodeInstruction.argSWord1, BytecodeInstruction.argSWord1, h.dword 1 hn]

theorem argSWord2 (h : SameUpTo n ins ins') (hn : 2 ≤ n) : ins.argSWord2 = ins'.argSWord2 := by
  rw [BytecodeInstruction.argSWord2, BytecodeInstruction.argSWord2, h.dword 1 hn]

theorem argDWord {i : ℕ} (h : SameUpTo n ins ins') (hn : i + 2 ≤ n) :
    ins.argDWord i = ins'.argDWord i := h.dword (i + 1) hn

theorem argInt {i : ℕ} (h : SameUpTo n ins ins') (hn : i + 2 ≤ n) :
    ins.argInt i = ins'.argInt i := congrArg BitVec.toInt (h.argDWord hn)

theorem argQWord (h : SameUpTo n ins ins') (hn : 3 ≤ n) : ins.argQWord = ins'.argQWord := by
  rw [BytecodeInstruction.argQWord, BytecodeInstruction.argQWord, h.dword 1 (by omega),
    h.dword 2 (by omega)]

theorem argPWord (h : SameUpTo n ins ins') (hn : 3 ≤ n) : ins.argPWord = ins'.argPWord :=
  h.argQWord hn

theorem argPWord_one (h : SameUpTo n ins ins') (hn : 4 ≤ n) : ins.argPWord 1 = ins'.argPWord 1 := by
  rw [BytecodeInstruction.argPWord, BytecodeInstruction.argPWord, BytecodeInstruction.argQWord,
    BytecodeInstruction.argQWord, h.dword 2 (by omega), h.dword 3 (by omega)]

theorem target (h : SameUpTo n ins ins') (hn : 2 ≤ n) : ins.target = ins'.target := by
  rw [BytecodeInstruction.target, BytecodeInstruction.target, h.offset, h.argInt hn]

end SameUpTo

/-- The second variable of a conversion is read only if the conversion changes the width. -/
theorem emitCast_congr (stack : StackFrame) (op : CastOp) {src dst : Ty}
    (hfirst : ins.argSWord0 = ins'.argSWord0)
    (hsecond : (src.is64 != dst.is64) = true → ins.argSWord1 = ins'.argSWord1) :
    emitCast stack ins op src dst = emitCast stack ins' op src dst := by
  have hoffset : (if src.is64 != dst.is64 then ins.argSWord1 else ins.argSWord0) =
      if src.is64 != dst.is64 then ins'.argSWord1 else ins'.argSWord0 := by
    by_cases hwidths : (src.is64 != dst.is64) = true
    · rw [if_pos hwidths, if_pos hwidths, hsecond hwidths]
    · rw [if_neg hwidths, if_neg hwidths, hfirst]
  rw [emitCast, emitCast, hoffset, hfirst]

/-- An instruction that does not end a block is translated by the dwords read of it. -/
theorem translateOrdinary_congr (stack : StackFrame) (h : SameUpTo ins.bc.dwordsRead ins ins') :
    translateOrdinary stack ins = translateOrdinary stack ins' := by
  have hbc : ins'.bc = ins.bc := congrArg SBCInfo.bc h.info.symm
  rw [translateOrdinary, translateOrdinary, hbc]
  cases hop : ins.bc <;> rw [hop] at h <;> dsimp only <;> first
    | with_reducible rfl
    | simp (disch := decide) only [emitBinop, emitBinopWith, emitBinopOf, emitNeg, emitBitNot,
        compareVariables, copyVariable, incrementVariable, writeThroughRegister,
        readNarrowThroughRegister, readThroughRegister, translateAlloc, allocScriptObject,
        translateFree, translateGetObj, translateGetObjRef, translateGetRef, translateRefCpy,
        translateRefCpyV, h.argWord0, h.argSWord0,
        h.argSWord1, h.argSWord2, h.argDWord, h.argInt, h.argQWord, h.argPWord]
    | exact emitCast_congr stack _ (h.argSWord0 (by decide)) fun hwidths => by
        first | exact h.argSWord1 (by decide) | exact absurd hwidths (by decide)

/-- **An instruction is translated by the dwords that `translate_instruction` reads of it.** -/
theorem translateOpcode_congr (stack : StackFrame) (jumps : JumpTables)
    (h : SameUpTo ins.bc.dwordsRead ins ins') :
    translateOpcode stack jumps ins = translateOpcode stack jumps ins' := by
  have hbc : ins'.bc = ins.bc := congrArg SBCInfo.bc h.info.symm
  have hordinary := translateOrdinary_congr stack h
  rw [translateOpcode, translateOpcode, hbc, hordinary]
  cases hop : ins.bc <;> rw [hop] at h <;> dsimp only <;> first
    | with_reducible rfl
    | simp (disch := decide) only [translateRet, translateJmpP, getBranchTarget,
        getConditionalFailBranchTarget, emitConditionalBranch, h.offset, h.argSWord0, h.target]

/-- **The pre-pass handles an instruction by the dwords that it reads of it.** -/
theorem preprocessInstruction_congr (st : JumpTables × PreprocessContext) {n : ℕ}
    (h : SameUpTo n ins ins')
    (hn : ins.bc = .JMP ∨ ins.bc.isConditionalJump = true → 2 ≤ n) :
    preprocessInstruction st ins = preprocessInstruction st ins' := by
  have hbc : ins'.bc = ins.bc := congrArg SBCInfo.bc h.info.symm
  rw [preprocessInstruction, preprocessInstruction, hbc]
  cases hop : ins.bc <;> rw [hop] at hn <;> dsimp only <;> first
    | with_reducible rfl
    | simp (disch := decide) only [preprocessConditionalBranch, preprocessUnconditionalBranch,
        h.offset, h.target (hn (by decide))]
    | rw [h.offset]

/-- **An instruction is printed by the dwords that `disassemble` reads of it.** -/
theorem disassemble_congr (context : FunctionContext) {table : InstructionTable} {op : BitVec 8}
    (hins : ins.bc = (table.info op).bc)
    (h : SameUpTo (Pass.dwordsRead table op .disassemble) ins ins') :
    disassemble context (table.type op) ins = disassemble context (table.type op) ins' := by
  have hbc : ins'.bc = ins.bc := congrArg SBCInfo.bc h.info.symm
  rw [Pass.dwordsRead, ← hins] at h
  rw [disassemble, disassemble, hbc]
  split
  · rfl
  · rfl
  · next hop => rw [hop] at h; rw [h.argInt (Nat.le_refl 2)]
  · next hop => rw [hop] at h; rw [h.argInt (Nat.le_refl 2)]
  · next hop => rw [hop] at h; rw [h.argInt (Nat.le_refl 2)]
  · split at h <;> try contradiction
    cases htype : table.type op <;> rw [htype] at h <;>
      simp (disch := decide) only [BCType.operands, h.argSWord0, h.argSWord1, h.argSWord2, h.argInt,
        h.argPWord, h.argPWord_one]

end Reads

/-! ### What a walk visits -/

section Walk

variable {σ : Type} {table : InstructionTable} {bytecode : List (BitVec 32)}
variable {func : σ → BytecodeInstruction → Except EmitError σ}

/-- The places a walk comes to, from a place and a state on, and the states it comes there in. -/
inductive ComesFrom (table : InstructionTable) (bytecode : List (BitVec 32))
    (func : σ → BytecodeInstruction → Except EmitError σ) : ℕ → σ → ℕ → σ → Prop
  | refl (o : ℕ) (s : σ) : ComesFrom table bytecode func o s o s
  | step {o o' : ℕ} {s s' s'' : σ} (inside : o < bytecode.length)
      (done : func s (table.instructionAt bytecode o) = .ok s')
      (rest : ComesFrom table bytecode func (o + table.sizeAt bytecode o) s' o' s'') :
      ComesFrom table bytecode func o s o' s''

/-- The places where an instruction starts: the start of the array, and the end of an instruction
that starts inside it. -/
inductive Starts (table : InstructionTable) (bytecode : List (BitVec 32)) : ℕ → Prop
  | zero : Starts table bytecode 0
  | next {o : ℕ} (h : Starts table bytecode o) (inside : o < bytecode.length) :
      Starts table bytecode (o + table.sizeAt bytecode o)

/-- The walk of a pass ends; it visits no place after a later one or twice, and of each place the
dwords it reads lie inside the array. -/
def EndsInside (table : InstructionTable) (bytecode : List (BitVec 32))
    (func : σ → BytecodeInstruction → Except EmitError σ) (reads : BitVec 8 → ℕ) (o : ℕ) (s : σ) :
    Prop :=
  ∃ turns visited result, walkBytecode table bytecode func turns o s = some (visited, result) ∧
    (visited.map (·.offset)).Pairwise (· < ·) ∧
    ∀ ins ∈ visited, ins.offset + reads (opcodeAt bytecode ins.offset) ≤ bytecode.length

/-- An instruction that starts at a place takes a dword, unless the pass fails there, and what the
pass reads of it lies inside the array. -/
def Sound (table : InstructionTable) (bytecode : List (BitVec 32))
    (func : σ → BytecodeInstruction → Except EmitError σ) (reads : BitVec 8 → ℕ) (o : ℕ) (s : σ) :
    Prop :=
  (0 < table.sizeAt bytecode o ∨ ∃ e, func s (table.instructionAt bytecode o) = .error e) ∧
    o + reads (opcodeAt bytecode o) ≤ bytecode.length

namespace ComesFrom

theorem trans {o o' o'' : ℕ} {s s' s'' : σ} (h : ComesFrom table bytecode func o s o' s')
    (h' : ComesFrom table bytecode func o' s' o'' s'') :
    ComesFrom table bytecode func o s o'' s'' := by
  induction h with
  | refl o s => exact h'
  | step inside done _ ih => exact .step inside done (ih h')

/-- Behind the start of an instruction, a walk comes to starts of instructions only. -/
theorem starts {o o' : ℕ} {s s' : σ} (h : ComesFrom table bytecode func o s o' s')
    (ho : Starts table bytecode o) : Starts table bytecode o' := by
  induction h with
  | refl o s => exact ho
  | step inside done _ ih => exact ih (ho.next inside)

end ComesFrom

variable {reads : BitVec 8 → ℕ} {o turns : ℕ} {s s' : σ}
variable {visited : List BytecodeInstruction} {result : Except EmitError σ}

theorem walkBytecode_of_le (h : bytecode.length ≤ o) :
    walkBytecode table bytecode func (turns + 1) o s = some ([], .ok s) := by
  rw [walkBytecode, if_neg (by omega)]

theorem walkBytecode_of_error {e : EmitError} (ho : o < bytecode.length)
    (h : func s (table.instructionAt bytecode o) = .error e) :
    walkBytecode table bytecode func (turns + 1) o s =
      some ([table.instructionAt bytecode o], .error e) := by
  rw [walkBytecode, if_pos ho, h]

theorem walkBytecode_of_ok (ho : o < bytecode.length)
    (h : func s (table.instructionAt bytecode o) = .ok s') :
    walkBytecode table bytecode func (turns + 1) o s =
      (walkBytecode table bytecode func turns (o + table.sizeAt bytecode o) s').map fun walk =>
        (table.instructionAt bytecode o :: walk.1, walk.2) := by
  rw [walkBytecode, if_pos ho, h]

/-- **How a walk that has ended went on from a place**: it was at the end of the array, the pass
failed there, or it went on behind the instruction. -/
theorem walkBytecode_cases
    (h : walkBytecode table bytecode func turns o s = some (visited, result)) :
    (bytecode.length ≤ o ∧ visited = [] ∧ result = .ok s) ∨
    (o < bytecode.length ∧ ∃ e, func s (table.instructionAt bytecode o) = .error e ∧
      visited = [table.instructionAt bytecode o] ∧ result = .error e) ∨
    (o < bytecode.length ∧ ∃ s' turns' rest, turns = turns' + 1 ∧
      func s (table.instructionAt bytecode o) = .ok s' ∧
      walkBytecode table bytecode func turns' (o + table.sizeAt bytecode o) s' =
        some (rest, result) ∧
      visited = table.instructionAt bytecode o :: rest) := by
  cases turns with
  | zero => exact absurd h (by simp [walkBytecode])
  | succ turns =>
      rcases Nat.lt_or_ge o bytecode.length with ho | ho
      · cases hfunc : func s (table.instructionAt bytecode o) with
        | error e =>
            rw [walkBytecode_of_error ho hfunc] at h
            obtain ⟨rfl, rfl⟩ := Prod.mk.inj (Option.some.inj h)
            exact .inr (.inl ⟨ho, e, rfl, rfl, rfl⟩)
        | ok s' =>
            rw [walkBytecode_of_ok ho hfunc, Option.map_eq_some_iff] at h
            obtain ⟨⟨rest, result'⟩, hrest, hpair⟩ := h
            obtain ⟨rfl, rfl⟩ := Prod.mk.inj hpair
            exact .inr (.inr ⟨ho, s', turns, rest, rfl, rfl, hrest, rfl⟩)
      · rw [walkBytecode_of_le ho] at h
        obtain ⟨rfl, rfl⟩ := Prod.mk.inj (Option.some.inj h)
        exact .inl ⟨ho, rfl, rfl⟩

/-- **A walk is a fold** of what the pass does over the instructions that it visits. -/
theorem foldlM_of_walkBytecode
    (h : walkBytecode table bytecode func turns o s = some (visited, result)) :
    visited.foldlM func s = result := by
  induction visited generalizing turns o s with
  | nil =>
      rcases walkBytecode_cases h with ⟨-, -, rfl⟩ | ⟨-, e, -, hcons, -⟩ |
        ⟨-, s', turns', rest, -, -, -, hcons⟩
      · rfl
      · cases hcons
      · cases hcons
  | cons ins visited ih =>
      rcases walkBytecode_cases h with ⟨-, hnil, -⟩ | ⟨-, e, hfunc, hcons, rfl⟩ |
        ⟨-, s', turns', rest, -, hfunc, hrest, hcons⟩
      · cases hnil
      · obtain ⟨rfl, rfl⟩ := List.cons.inj hcons
        rw [List.foldlM_cons, hfunc]
        rfl
      · obtain ⟨rfl, rfl⟩ := List.cons.inj hcons
        rw [List.foldlM_cons, hfunc]
        exact ih hrest

/-- A walk visits nothing before the place it goes on from. -/
theorem le_offset_of_walkBytecode
    (h : walkBytecode table bytecode func turns o s = some (visited, result)) :
    ∀ ins ∈ visited, o ≤ ins.offset := by
  induction turns generalizing o s visited with
  | zero => exact absurd h (by simp [walkBytecode])
  | succ turns ih =>
      intro ins hins
      rcases walkBytecode_cases h with ⟨-, rfl, -⟩ | ⟨-, e, -, rfl, -⟩ |
        ⟨-, s', turns', rest, hturns, -, hrest, rfl⟩
      · cases hins
      · rw [List.mem_singleton.mp hins, InstructionTable.instructionAt]
      · obtain rfl := Nat.succ.inj hturns
        rcases List.mem_cons.mp hins with rfl | hins
        · rw [InstructionTable.instructionAt]
        · have := ih hrest ins hins
          omega

/-- **What a walk visits lies one behind the other**, if each instruction takes a dword. -/
theorem walkedFrom_of_walkBytecode
    (h : walkBytecode table bytecode func turns o s = some (visited, result))
    (hsize : ∀ ins ∈ visited, 0 < ins.info.size) : WalkedFrom o visited := by
  induction visited generalizing turns o s with
  | nil => trivial
  | cons ins visited ih =>
      have hpos : 0 < ins.info.size := hsize ins List.mem_cons_self
      rcases walkBytecode_cases h with ⟨-, hnil, -⟩ | ⟨-, e, -, hcons, -⟩ |
        ⟨-, s', turns', rest, -, -, hrest, hcons⟩
      · cases hnil
      · obtain ⟨rfl, rfl⟩ := List.cons.inj hcons
        exact ⟨rfl, hpos, trivial⟩
      · obtain ⟨rfl, rfl⟩ := List.cons.inj hcons
        exact ⟨rfl, hpos, ih hrest fun ins hins => hsize ins (List.mem_cons_of_mem _ hins)⟩

/-- A walk that ends without an exception comes to the start of every instruction. -/
theorem comesFrom_of_starts {s'' : σ} {o' : ℕ}
    (h : walkBytecode table bytecode func turns 0 s = some (visited, .ok s''))
    (hstarts : Starts table bytecode o') :
    ∃ s' turns' rest, ComesFrom table bytecode func 0 s o' s' ∧
      walkBytecode table bytecode func turns' o' s' = some (rest, .ok s'') ∧
      ∀ ins ∈ rest, ins ∈ visited := by
  induction hstarts with
  | zero => exact ⟨s, turns, visited, .refl 0 s, h, fun ins hins => hins⟩
  | next _ inside ih =>
      obtain ⟨s', turns', rest, hcomes, hwalk, hsub⟩ := ih
      rcases walkBytecode_cases hwalk with ⟨hend, -, -⟩ | ⟨-, e, -, -, hresult⟩ |
        ⟨-, s₁, turns₁, rest₁, -, hfunc, hrest, rfl⟩
      · omega
      · cases hresult
      · exact ⟨s₁, turns₁, rest₁, hcomes.trans (.step inside hfunc (.refl _ _)), hrest,
          fun ins hins => hsub ins (List.mem_cons_of_mem _ hins)⟩

/-- A walk that ends without an exception visits the start of every instruction. -/
theorem mem_visited_of_starts {s'' : σ} {o' : ℕ}
    (h : walkBytecode table bytecode func turns 0 s = some (visited, .ok s''))
    (hstarts : Starts table bytecode o') (ho' : o' < bytecode.length) :
    table.instructionAt bytecode o' ∈ visited := by
  obtain ⟨s', turns', rest, -, hwalk, hsub⟩ := comesFrom_of_starts h hstarts
  rcases walkBytecode_cases hwalk with ⟨hend, -, -⟩ | ⟨-, e, -, -, hresult⟩ |
    ⟨-, s₁, turns₁, rest₁, -, -, -, rfl⟩
  · omega
  · cases hresult
  · exact hsub _ List.mem_cons_self

/-- With an instruction that a walk visits, the pass went on or ended. -/
theorem of_mem_visited {ins : BytecodeInstruction}
    (h : walkBytecode table bytecode func turns o s = some (visited, result))
    (hins : ins ∈ visited) :
    (∃ s₁ s₂, func s₁ ins = .ok s₂) ∨ ∃ s₁ e, func s₁ ins = .error e ∧ result = .error e := by
  induction visited generalizing turns o s with
  | nil => cases hins
  | cons first visited ih =>
      rcases walkBytecode_cases h with ⟨-, hnil, -⟩ | ⟨-, e, hfunc, hcons, hresult⟩ |
        ⟨-, s', turns', rest, -, hfunc, hrest, hcons⟩
      · cases hnil
      · obtain ⟨rfl, rfl⟩ := List.cons.inj hcons
        rw [List.mem_singleton.mp hins]
        exact .inr ⟨s, e, hfunc, hresult⟩
      · obtain ⟨rfl, rfl⟩ := List.cons.inj hcons
        rcases List.mem_cons.mp hins with rfl | hins
        · exact .inl ⟨s, s', hfunc⟩
        · exact ih hrest hins

/-- **Two walks that end without an exception visit the same instructions**, whatever is done with
them. -/
theorem visited_eq {τ : Type} {func' : τ → BytecodeInstruction → Except EmitError τ} {t t' : τ}
    {turns' : ℕ} {visited' : List BytecodeInstruction}
    (h : walkBytecode table bytecode func turns o s = some (visited, .ok s'))
    (h' : walkBytecode table bytecode func' turns' o t = some (visited', .ok t')) :
    visited = visited' := by
  induction visited generalizing turns turns' o s t visited' with
  | nil =>
      rcases walkBytecode_cases h with ⟨hend, -, -⟩ | ⟨-, e, -, hcons, -⟩ |
        ⟨-, s₁, turns₁, rest, -, -, -, hcons⟩
      · rcases walkBytecode_cases h' with ⟨-, rfl, -⟩ | ⟨ho, -⟩ | ⟨ho, -⟩
        · rfl
        · omega
        · omega
      · cases hcons
      · cases hcons
  | cons ins visited ih =>
      rcases walkBytecode_cases h with ⟨-, hnil, -⟩ | ⟨-, e, -, -, hresult⟩ |
        ⟨ho, s₁, turns₁, rest, -, -, hrest, hcons⟩
      · cases hnil
      · cases hresult
      · obtain ⟨rfl, rfl⟩ := List.cons.inj hcons
        rcases walkBytecode_cases h' with ⟨hend, -, -⟩ | ⟨-, e, -, -, hresult⟩ |
          ⟨-, t₁, turns₂, rest', -, -, hrest', rfl⟩
        · omega
        · cases hresult
        · rw [ih hrest hrest']

/-! ### Walks that end inside the array -/

theorem endsInside_of_le (h : bytecode.length ≤ o) : EndsInside table bytecode func reads o s :=
  ⟨1, [], .ok s, walkBytecode_of_le h, List.Pairwise.nil, nofun⟩

/-- **One step of a walk that ends well.** -/
theorem endsInside_iff_of_lt (ho : o < bytecode.length) :
    EndsInside table bytecode func reads o s ↔ Sound table bytecode func reads o s ∧
      ∀ s', func s (table.instructionAt bytecode o) = .ok s' →
        EndsInside table bytecode func reads (o + table.sizeAt bytecode o) s' := by
  constructor
  · rintro ⟨turns, visited, result, hwalk, hsorted, hreads⟩
    rcases walkBytecode_cases hwalk with ⟨hend, -, -⟩ | ⟨-, e, hfunc, rfl, -⟩ |
      ⟨-, s', turns', rest, -, hfunc, hrest, rfl⟩
    · omega
    · refine ⟨⟨.inr ⟨e, hfunc⟩, hreads _ List.mem_cons_self⟩, fun s' hs' => ?_⟩
      rw [hfunc] at hs'
      cases hs'
    · rw [List.map_cons, List.pairwise_cons] at hsorted
      refine ⟨⟨.inl ?_, hreads _ List.mem_cons_self⟩, fun s'' hs'' => ?_⟩
      · -- the instruction behind it starts at a later place, or behind the array
        rcases walkBytecode_cases hrest with ⟨hend, -, -⟩ | ⟨-, e, -, rfl, -⟩ |
          ⟨-, s'', turns'', rest', -, -, -, rfl⟩
        · omega
        · have := hsorted.1 _ (List.mem_map_of_mem List.mem_cons_self)
          simp only [InstructionTable.instructionAt] at this
          omega
        · have := hsorted.1 _ (List.mem_map_of_mem List.mem_cons_self)
          simp only [InstructionTable.instructionAt] at this
          omega
      · rw [hfunc] at hs''
        obtain rfl := Except.ok.inj hs''
        exact ⟨turns', rest, result, hrest, hsorted.2,
          fun ins hins => hreads ins (List.mem_cons_of_mem _ hins)⟩
  · rintro ⟨⟨hsize, hinside⟩, hnext⟩
    cases hfunc : func s (table.instructionAt bytecode o) with
    | error e =>
        refine ⟨1, _, _, walkBytecode_of_error ho hfunc, List.pairwise_singleton _ _, ?_⟩
        intro ins hins
        rw [List.mem_singleton.mp hins]
        exact hinside
    | ok s' =>
        have hpos : 0 < table.sizeAt bytecode o := by
          rcases hsize with hsize | ⟨e, he⟩
          · exact hsize
          · rw [hfunc] at he
            cases he
        obtain ⟨turns, visited, result, hwalk, hsorted, hreads⟩ := hnext s' hfunc
        refine ⟨turns + 1, _, result, by rw [walkBytecode_of_ok ho hfunc, hwalk]; rfl, ?_, ?_⟩
        · rw [List.map_cons, List.pairwise_cons]
          refine ⟨fun offset hoffset => ?_, hsorted⟩
          obtain ⟨ins, hins, rfl⟩ := List.mem_map.mp hoffset
          have := le_offset_of_walkBytecode hwalk ins hins
          simp only [InstructionTable.instructionAt]
          omega
        · intro ins hins
          rcases List.mem_cons.mp hins with rfl | hins
          · exact hinside
          · exact hreads ins hins

/-- **A walk ends inside the array exactly if every instruction it comes to is sound.** -/
theorem endsInside_iff :
    EndsInside table bytecode func reads o s ↔ ∀ o' s', ComesFrom table bytecode func o s o' s' →
      o' < bytecode.length → Sound table bytecode func reads o' s' := by
  constructor
  · intro h o' s' hcomes
    induction hcomes with
    | refl o s => exact fun ho => ((endsInside_iff_of_lt ho).mp h).1
    | step inside done rest ih => exact ih (((endsInside_iff_of_lt inside).mp h).2 _ done)
  · -- what is left of the array behind an instruction is shorter
    induction hleft : bytecode.length - o using Nat.strong_induction_on generalizing o s with
    | _ left ih =>
        intro h
        rcases Nat.lt_or_ge o bytecode.length with ho | ho
        · have hsound := h o s (.refl o s) ho
          refine (endsInside_iff_of_lt ho).mpr ⟨hsound, fun s' hs' => ?_⟩
          have hpos : 0 < table.sizeAt bytecode o := by
            rcases hsound.1 with hsize | ⟨e, he⟩
            · exact hsize
            · rw [hs'] at he
              cases he
          exact ih _ (by omega) rfl fun o' s'' hcomes => h o' s'' (.step ho hs' hcomes)
        · exact endsInside_of_le ho

/-- **A walk whose pass never fails comes nowhere else than to the starts of instructions**, and to
all of them. -/
theorem starts_iff_exists_comesFrom (hok : ∀ s ins, ∃ s', func s ins = .ok s') (s : σ) :
    Starts table bytecode o ↔ ∃ s', ComesFrom table bytecode func 0 s o s' := by
  constructor
  · intro h
    induction h with
    | zero => exact ⟨s, .refl 0 s⟩
    | next _ inside ih =>
        obtain ⟨s', hs'⟩ := ih
        obtain ⟨s'', hs''⟩ := hok s' (table.instructionAt bytecode _)
        exact ⟨s'', hs'.trans (.step inside hs'' (.refl _ _))⟩
  · rintro ⟨s', hs'⟩
    exact hs'.starts .zero

/-- A walk that comes to an instruction without a size goes on there forever, if the pass never
fails. -/
theorem walkBytecode_of_sizeAt_zero (hok : ∀ s ins, ∃ s', func s ins = .ok s')
    (ho : o < bytecode.length) (hsize : table.sizeAt bytecode o = 0) :
    walkBytecode table bytecode func turns o s = none := by
  induction turns generalizing s with
  | zero => rw [walkBytecode]
  | succ turns ih =>
      obtain ⟨s', hs'⟩ := hok s (table.instructionAt bytecode o)
      rw [walkBytecode_of_ok ho hs', hsize, Nat.add_zero, ih, Option.map_none]

end Walk

/-! ### The walks of `translate_bytecode` -/

/-- The opcode byte of an instruction. -/
def BytecodeInstruction.opcode (ins : BytecodeInstruction) : BitVec 8 := (ins.dword 0).setWidth 8

/-- The function of the first walk. -/
def disassemblePass (table : InstructionTable) (context : FunctionContext) (_ : Unit)
    (ins : BytecodeInstruction) : Except EmitError Unit :=
  (disassemble context (table.type ins.opcode) ins).map fun _ => ()

/-- The function of the second walk. -/
def preprocessPass (st : JumpTables × PreprocessContext) (ins : BytecodeInstruction) :
    Except EmitError (JumpTables × PreprocessContext) :=
  .ok (preprocessInstruction st ins)

/-- The function of the third walk. A verbose compiler disassembles the instruction once more, and
reads nothing then that the first walk has not read. -/
def translatePass (stack : StackFrame) (jumps : JumpTables) (st : BuilderState)
    (ins : BytecodeInstruction) : Except EmitError BuilderState :=
  (translateInstruction stack jumps ins st).map (·.2)

section Translation

variable (table : InstructionTable) (verbose : Bool) (context : FunctionContext)
variable (bytecode : List (BitVec 32))

/-- The pre-pass is made: there is no disassembly, or it has ended without an exception. -/
def PreprocessingMade : Prop :=
  verbose = true → ∃ turns visited,
    walkBytecode table bytecode (disassemblePass table context) turns 0 () =
      some (visited, .ok ())

/-- The instructions are translated, with these tables and from this state on: the pre-pass has
ended, and the local structures are there. -/
def TranslationMade (stack : StackFrame) (jumps : JumpTables) (st : BuilderState) : Prop :=
  PreprocessingMade table verbose context bytecode ∧
  (∃ turns visited ctx, walkBytecode table bytecode preprocessPass turns 0 (.empty, ⟨0, false⟩) =
    some (visited, .ok (jumps, ctx))) ∧
  emitCode .Implementation (emitAllocateLocalStructures context) .new = .ok (stack, st)

/-- **The walks of `translate_bytecode` end**: every walk that is made visits later and later places,
ends, and reads dwords of the array only; and an opcode that is not recognized ends the translation
with an error, which is the assertion in the `default` case if the translation comes to it. -/
structure WalksEnd : Prop where
  disassembly : verbose = true → EndsInside table bytecode (disassemblePass table context)
    (Pass.dwordsRead table · .disassemble) 0 ()
  preprocessing : PreprocessingMade table verbose context bytecode →
    EndsInside table bytecode preprocessPass (Pass.dwordsRead table · .preprocess) 0
      (.empty, ⟨0, false⟩)
  translation : ∀ stack jumps st, TranslationMade table verbose context bytecode stack jumps st →
    EndsInside table bytecode (translatePass stack jumps) (Pass.dwordsRead table · .translate) 0 st
  reported : context.config.assertions = true → ∀ stack jumps st,
    TranslationMade table verbose context bytecode stack jumps st →
    ∀ o, Starts table bytecode o → o < bytecode.length →
      (table.instructionAt bytecode o).bc = .other →
      ∃ turns visited e, walkBytecode table bytecode (translatePass stack jumps) turns 0 st =
          some (visited, .error e) ∧
        (table.instructionAt bytecode o ∈ visited → e = .assertion)

/-- An instruction that starts at a place takes at least one dword, and is **not cut off** before the
end of what a pass reads of it. -/
def Whole (pass : Pass) (o : ℕ) : Prop :=
  0 < table.sizeAt bytecode o ∧ o + Pass.dwordsRead table (opcodeAt bytecode o) pass ≤ bytecode.length

/-- **Whole instructions**: in each walk that is made, every instruction it comes to is whole. -/
structure WholeInstructions : Prop where
  disassembly : verbose = true → ∀ o, ComesFrom table bytecode (disassemblePass table context) 0 () o
    () → o < bytecode.length → Whole table bytecode .disassemble o
  preprocessing : PreprocessingMade table verbose context bytecode → ∀ o, Starts table bytecode o →
    o < bytecode.length → Whole table bytecode .preprocess o
  translation : ∀ stack jumps st, TranslationMade table verbose context bytecode stack jumps st →
    ∀ o st', ComesFrom table bytecode (translatePass stack jumps) 0 st o st' →
      o < bytecode.length → Whole table bytecode .translate o

end Translation

section Connection

variable {table : InstructionTable} {verbose : Bool} {context : FunctionContext}
variable {bytecode : List (BitVec 32)} {turns : ℕ} {visited : List BytecodeInstruction}
variable {stack : StackFrame} {jumps : JumpTables} {st st' : BuilderState}

theorem foldlM_ok {α β : Type} (f : β → α → β) (xs : List α) (b : β) :
    xs.foldlM (fun b a => (Except.ok (f b a) : Except EmitError β)) b = .ok (xs.foldl f b) := by
  induction xs generalizing b with
  | nil => rfl
  | cons x xs ih =>
      rw [List.foldlM_cons, List.foldl_cons, ← ih]
      rfl

/-- The second walk computes the jump tables of what it visits. -/
theorem preprocess_of_walkBytecode {ctx : PreprocessContext}
    (h : walkBytecode table bytecode preprocessPass turns 0 (.empty, ⟨0, false⟩) =
      some (visited, .ok (jumps, ctx))) : preprocess visited = jumps := by
  have hfold := (foldlM_ok preprocessInstruction visited (.empty, ⟨0, false⟩)).symm.trans
    (foldlM_of_walkBytecode h)
  rw [preprocess, Except.ok.inj hfold]

/-- The third walk translates what it visits. -/
theorem runs_forM_of_walkBytecode {o : ℕ}
    (h : walkBytecode table bytecode (translatePass stack jumps) turns o st =
      some (visited, .ok st')) : Runs (visited.forM (translateInstruction stack jumps)) st () st' := by
  have hfold := foldlM_of_walkBytecode h
  clear h
  induction visited generalizing st with
  | nil => exact runs_forM_nil.mpr (Except.ok.inj hfold).symm
  | cons ins visited ih =>
      rw [List.foldlM_cons] at hfold
      cases hins : translateInstruction stack jumps ins st with
      | error e =>
          rw [translatePass, hins] at hfold
          cases hfold
      | ok next =>
          rw [translatePass, hins] at hfold
          exact runs_forM_cons.mpr ⟨next.2, hins, ih hfold⟩

/-- **The walks compute `translateBytecode`** of the instructions that they visit. -/
theorem translateBytecode_of_walks {e : EmitState}
    (hmade : TranslationMade table verbose context bytecode stack jumps st)
    (h : walkBytecode table bytecode (translatePass stack jumps) turns 0 st =
      some (visited, .ok st'))
    (hfinalize : Runs stack.finalize { st'.emit with out := [] } () e) :
    translateBytecode context visited = .ok ⟨stack, jumps, e,
      e.out.foldl (Cfg.place .Implementation) st'.cfg⟩ := by
  obtain ⟨-, ⟨turns', visited', ctx, hpre⟩, hlocal⟩ := hmade
  have hjumps : preprocess visited = jumps := by
    rw [visited_eq h hpre]
    exact preprocess_of_walkBytecode hpre
  have hbuild : Runs (buildImplementation context jumps visited) .new stack
      ⟨e, e.out.foldl (Cfg.place .Implementation) st'.cfg⟩ := by
    rw [buildImplementation]
    refine runs_bind.mpr ⟨stack, st, hlocal, runs_bind.mpr
      ⟨(), st', runs_forM_of_walkBytecode h, runs_bind.mpr ⟨(), _, ?_, runs_pure.mpr ⟨rfl, rfl⟩⟩⟩⟩
    exact runs_emitCode.mpr ⟨e, hfinalize, rfl⟩
  rw [translateBytecode, hjumps, show buildImplementation context jumps visited .new = _ from hbuild]
  rfl

end Connection

/-! ### What is not recognized -/

section Reports

variable {τ α β : Type}

/-- A computation that succeeds, or fails with the assertion. -/
def MayReport (x : StateT τ (Except EmitError) α) : Prop :=
  ∀ s, x s = .error .assertion ∨ ∃ a t, Runs x s a t

/-- A computation that always fails with the assertion. -/
def Reports (x : StateT τ (Except EmitError) α) : Prop := ∀ s, x s = .error .assertion

theorem bind_of_error {x : StateT τ (Except EmitError) α} {s : τ} {e : EmitError}
    (f : α → StateT τ (Except EmitError) β) (h : x s = .error e) : (x >>= f) s = .error e := by
  change (x s >>= fun p => f p.1 p.2) = _
  rw [h]
  rfl

theorem bind_of_runs {x : StateT τ (Except EmitError) α} {s t : τ} {a : α}
    (f : α → StateT τ (Except EmitError) β) (h : Runs x s a t) : (x >>= f) s = f a t := by
  change (x s >>= fun p => f p.1 p.2) = _
  rw [show x s = .ok (a, t) from h]
  rfl

theorem MayReport.bind {x : StateT τ (Except EmitError) α}
    {f : α → StateT τ (Except EmitError) β} (hx : MayReport x) (hf : ∀ a, MayReport (f a)) :
    MayReport (x >>= f) := by
  intro s
  rcases hx s with he | ⟨a, t, hruns⟩
  · exact .inl (bind_of_error f he)
  · rcases hf a t with he | ⟨b, u, hu⟩
    · exact .inl ((bind_of_runs f hruns).trans he)
    · exact .inr ⟨b, u, runs_bind.mpr ⟨a, t, hruns, hu⟩⟩

theorem Reports.of_bind {x : StateT τ (Except EmitError) α}
    {f : α → StateT τ (Except EmitError) β} (hx : MayReport x) (hf : ∀ a, Reports (f a)) :
    Reports (x >>= f) := by
  intro s
  rcases hx s with he | ⟨a, t, hruns⟩
  · exact bind_of_error f he
  · exact (bind_of_runs f hruns).trans (hf a t)

theorem Reports.bind {x : StateT τ (Except EmitError) α} (hx : Reports x)
    (f : α → StateT τ (Except EmitError) β) : Reports (x >>= f) :=
  fun s => bind_of_error f (hx s)

theorem mayReport_pure (a : α) : MayReport (pure a : StateT τ (Except EmitError) α) :=
  fun s => .inr ⟨a, s, runs_pure.mpr ⟨rfl, rfl⟩⟩

theorem mayReport_get : MayReport (get : StateT τ (Except EmitError) τ) :=
  fun s => .inr ⟨s, s, runs_get.mpr ⟨rfl, rfl⟩⟩

theorem mayReport_modify (f : τ → τ) :
    MayReport (modify f : StateT τ (Except EmitError) Unit) :=
  fun s => .inr ⟨(), f s, runs_modify.mpr rfl⟩

theorem mayReport_asllvmAssert (config : JitConfig) (condition : Bool) :
    MayReport (asllvmAssert config condition) := by
  rw [asllvmAssert]
  split
  · exact fun s => .inl rfl
  · exact mayReport_pure ()

theorem MayReport.emitCode {x : EmitM α} (type : GeneratedFunctionType) (hx : MayReport x) :
    MayReport (emitCode type x) := by
  intro st
  rcases hx { st.emit with out := [] } with he | ⟨a, t, hruns⟩
  · left
    rw [Asllvm.emitCode, he]
    rfl
  · exact .inr ⟨a, _, runs_emitCode.mpr ⟨t, hruns, rfl⟩⟩

theorem Reports.emitCode {x : EmitM α} (type : GeneratedFunctionType) (hx : Reports x) :
    Reports (emitCode type x) := by
  intro st
  rw [Asllvm.emitCode, hx]
  rfl

end Reports

section Unrecognized

variable {stack : StackFrame} {jumps : JumpTables} {ins : BytecodeInstruction}

theorem mayReport_currentStackPointer : MayReport StackFrame.currentStackPointer :=
  mayReport_get.bind fun _ => mayReport_pure _

theorem mayReport_emptyStack : MayReport stack.emptyStack :=
  mayReport_currentStackPointer.bind fun _ => mayReport_pure _

theorem mayReport_checkStackPointerBounds : MayReport stack.checkStackPointerBounds :=
  mayReport_currentStackPointer.bind fun _ => (mayReport_asllvmAssert _ _).bind fun _ =>
    mayReport_currentStackPointer.bind fun _ => mayReport_asllvmAssert _ _

/-- The `default` case: the assertion fails. -/
theorem translateOpcode_other (hbc : ins.bc = .other) (ha : stack.config.assertions = true) :
    Reports (translateOpcode stack jumps ins) := by
  rw [translateOpcode_of_ordinary stack jumps ins (by rw [hbc]; rfl), translateOrdinary, hbc]
  refine Reports.bind (fun s => ?_) _
  rw [unimpl, asllvmAssert, ha]
  rfl

/-- **An opcode that is not recognized is reported.** -/
theorem translateInstruction_other (hbc : ins.bc = .other) (ha : stack.config.assertions = true) :
    Reports (translateInstruction stack jumps ins) := by
  rw [translateInstruction]
  refine .of_bind (mayReport_currentStackPointer.emitCode _) fun old => ?_
  cases jumps.jumpMap ins.offset with
  | none =>
      exact .of_bind (mayReport_modify _) fun _ =>
        .of_bind (mayReport_checkStackPointerBounds.emitCode _) fun _ =>
          ((translateOpcode_other hbc ha).emitCode _).bind _
  | some block =>
      refine .of_bind ((mayReport_emptyStack.bind fun _ => mayReport_asllvmAssert _ _).emitCode _)
        fun _ => .of_bind (mayReport_modify _) fun _ => ?_
      exact .of_bind (mayReport_modify _) fun _ =>
        .of_bind (mayReport_checkStackPointerBounds.emitCode _) fun _ =>
          ((translateOpcode_other hbc ha).emitCode _).bind _

/-- A translation that has visited an unrecognized instruction ended with the assertion. -/
theorem error_of_other_mem_visited {table : InstructionTable} {bytecode : List (BitVec 32)}
    {turns o : ℕ} {st : BuilderState} {visited : List BytecodeInstruction}
    {result : Except EmitError BuilderState}
    (h : walkBytecode table bytecode (translatePass stack jumps) turns o st =
      some (visited, result)) (hins : ins ∈ visited) (hbc : ins.bc = .other)
    (ha : stack.config.assertions = true) : result = .error .assertion := by
  have hreport (s : BuilderState) : translatePass stack jumps s ins = .error .assertion := by
    rw [translatePass, translateInstruction_other hbc ha s]
    rfl
  rcases of_mem_visited h hins with ⟨s, s', hs⟩ | ⟨s, e, hs, rfl⟩
  · rw [hreport] at hs
    cases hs
  · rw [hreport] at hs
    rw [Except.error.inj hs]

end Unrecognized

/-! ### When the walks end -/

section WalksEnd

variable {table : InstructionTable} {verbose : Bool} {context : FunctionContext}
variable {bytecode : List (BitVec 32)}

theorem preprocessPass_ok (st : JumpTables × PreprocessContext) (ins : BytecodeInstruction) :
    ∃ st', preprocessPass st ins = .ok st' := ⟨_, rfl⟩

/-- **The pre-pass ends inside the array exactly if it does at the start of every instruction**: it
looks at all of them, and refuses none. -/
theorem preprocessing_endsInside_iff {reads : BitVec 8 → ℕ} (st : JumpTables × PreprocessContext) :
    EndsInside table bytecode preprocessPass reads 0 st ↔
      ∀ o, Starts table bytecode o → o < bytecode.length → 0 < table.sizeAt bytecode o ∧
        o + reads (opcodeAt bytecode o) ≤ bytecode.length := by
  rw [endsInside_iff]
  constructor
  · intro h o hstarts ho
    obtain ⟨st', hcomes⟩ := (starts_iff_exists_comesFrom preprocessPass_ok st).mp hstarts
    obtain ⟨hsize | ⟨e, he⟩, hinside⟩ := h o st' hcomes ho
    · exact ⟨hsize, hinside⟩
    · cases he
  · intro h o st' hcomes ho
    have hsound := h o ((starts_iff_exists_comesFrom preprocessPass_ok st).mpr ⟨st', hcomes⟩) ho
    exact ⟨.inl hsound.1, hsound.2⟩

/-- A translation that ends reports every instruction that is not recognized. -/
theorem reported_of_endsInside {stack : StackFrame} {jumps : JumpTables} {st : BuilderState}
    {reads : BitVec 8 → ℕ} {o : ℕ} (ha : stack.config.assertions = true)
    (hends : EndsInside table bytecode (translatePass stack jumps) reads 0 st)
    (hstarts : Starts table bytecode o) (ho : o < bytecode.length)
    (hbc : (table.instructionAt bytecode o).bc = .other) :
    ∃ turns visited e, walkBytecode table bytecode (translatePass stack jumps) turns 0 st =
        some (visited, .error e) ∧
      (table.instructionAt bytecode o ∈ visited → e = .assertion) := by
  obtain ⟨turns, visited, result, hwalk, -, -⟩ := hends
  have hreport (hmem : table.instructionAt bytecode o ∈ visited) : result = .error .assertion :=
    error_of_other_mem_visited hwalk hmem hbc ha
  cases result with
  | error e => exact ⟨turns, visited, e, hwalk, fun hmem => Except.error.inj (hreport hmem)⟩
  | ok st' => cases hreport (mem_visited_of_starts hwalk hstarts ho)

/-- What takes no dword is disassembled all the same. -/
theorem disassemblePass_of_sizeAt_zero {o : ℕ} (h : table.sizeAt bytecode o = 0) :
    disassemblePass table context () (table.instructionAt bytecode o) = .ok () := by
  have htype : table.type (opcodeAt bytecode o) = .asBCTYPE_INFO := (table.size_zero_iff _).mp h
  have hbc : (table.instructionAt bytecode o).bc = .other := table.other_of_info _ htype
  rw [disassemblePass, disassemble, hbc]
  rfl

/-- **The walks of `translate_bytecode` end exactly if its instructions are whole.** -/
theorem walks_end_iff (table : InstructionTable) (verbose : Bool) (context : FunctionContext)
    (bytecode : List (BitVec 32)) :
    WalksEnd table verbose context bytecode ↔ WholeInstructions table verbose context bytecode := by
  constructor
  · intro h
    refine
      { disassembly := fun hverbose o hcomes ho => ?_
        preprocessing := fun hmade =>
          (preprocessing_endsInside_iff _).mp (h.preprocessing hmade)
        translation := fun stack jumps st hmade o st' hcomes ho => ?_ }
    · obtain ⟨hsize, hinside⟩ := endsInside_iff.mp (h.disassembly hverbose) o () hcomes ho
      refine ⟨?_, hinside⟩
      rcases hsize with hpos | ⟨e, he⟩
      · exact hpos
      · by_contra hzero
        rw [disassemblePass_of_sizeAt_zero (by omega)] at he
        cases he
    · -- the pre-pass has come to the instruction before
      have hpreprocessed := (preprocessing_endsInside_iff _).mp (h.preprocessing hmade.1) o
        (hcomes.starts .zero) ho
      have hsound := endsInside_iff.mp (h.translation stack jumps st hmade) o st' hcomes ho
      exact ⟨hpreprocessed.1, hsound.2⟩
  · intro h
    have htranslation (stack : StackFrame) (jumps : JumpTables) (st : BuilderState)
        (hmade : TranslationMade table verbose context bytecode stack jumps st) :
        EndsInside table bytecode (translatePass stack jumps)
          (Pass.dwordsRead table · .translate) 0 st := by
      refine endsInside_iff.mpr fun o st' hcomes ho => ?_
      obtain ⟨hpos, hinside⟩ := h.translation stack jumps st hmade o st' hcomes ho
      exact ⟨.inl hpos, hinside⟩
    refine
      { disassembly := fun hverbose => endsInside_iff.mpr fun o _ hcomes ho => ?_
        preprocessing := fun hmade =>
          (preprocessing_endsInside_iff _).mpr (h.preprocessing hmade)
        translation := htranslation
        reported := fun ha stack jumps st hmade o hstarts ho hbc => ?_ }
    · obtain ⟨hpos, hinside⟩ := h.disassembly hverbose o hcomes ho
      exact ⟨.inl hpos, hinside⟩
    · have hcontext : stack.toFunctionContext = context := by
        obtain ⟨e, hlocal, -⟩ := runs_emitCode.mp (show Runs _ _ _ _ from hmade.2.2)
        exact (emitAllocateLocalStructures_stack hlocal).1
      rw [← hcontext] at ha
      exact reported_of_endsInside ha (htranslation stack jumps st hmade) hstarts ho hbc

end WalksEnd

/-! ### An instruction without a size -/

/-- What is not an instruction at run time. -/
def SBCInfo.unassigned : SBCInfo := ⟨.other, 0, 0, fun h => by simp [Opcode.isConditionalJump] at h⟩

theorem jump_size_RET : Opcode.RET = .JMP ∨ Opcode.RET.isConditionalJump = true → 1 = 2 := by
  rintro (h | h) <;> cases h

/-- A part of `asBCInfo`: `RET`, and the opcodes that only the compiler of AngelScript knows. -/
def labelTable : InstructionTable where
  info op := if op = 10 then ⟨.RET, 1, 0xFFFF, jump_size_RET⟩
    else .unassigned
  type op := if op = 10 then .asBCTYPE_W_ARG else .asBCTYPE_INFO
  size_le op := by split <;> simp [SBCInfo.unassigned]
  size_zero_iff op := by split <;> simp [SBCInfo.unassigned]
  other_of_info op h := by split at h <;> simp_all [SBCInfo.unassigned]

/-- **The pre-pass of a bytecode that starts with a label never ends.** -/
theorem walks_end_not_label :
    (∀ turns, walkBytecode labelTable [0xFF] preprocessPass turns 0 (.empty, ⟨0, false⟩) = none) ∧
      ¬ WalksEnd labelTable false loopContext [0xFF] := by
  have hloop (turns : ℕ) : walkBytecode labelTable [0xFF] preprocessPass turns 0
      (.empty, ⟨0, false⟩) = none :=
    walkBytecode_of_sizeAt_zero preprocessPass_ok (by decide) (by decide)
  refine ⟨hloop, fun h => ?_⟩
  obtain ⟨turns, visited, result, hwalk, -, -⟩ := h.preprocessing (fun hverbose => nomatch hverbose)
  rw [hloop] at hwalk
  cases hwalk

end Asllvm
