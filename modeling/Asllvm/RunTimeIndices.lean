import Asllvm.BytecodeCfg
import Asllvm.Activation
import Asllvm.VmEntry

/-!
# Run-Time Variable Indices

`VAR` pushes the index of a variable, which `GETREF`, `GETOBJREF` and `GETOBJ` later replace by the
address or the content of the variable. They find it in `m_storage`, by `total_space() - index`,
whatever the index is, while `pointer_to` finds a parameter in an alloca of its own.

The no-wrap flags that `GETOBJ` puts on this subtraction are left out: they hold of the index of
a local.

* `indexAddress` — the address the three instructions compute.
* `indexReplaced` — what they are to do to the memory.

## Main results

* `CodeOf.replaceIndex_runs` — what the three instructions do, for every index.
* `runTimeIndices_iff` — they use the variable iff it is a local.
-/

open StateExcept

namespace Asllvm

/-- The type the index is loaded at, by the instructions that replace one. -/
def Opcode.indexType : Opcode → Option Ty
  | .GETREF => some .i32
  | .GETOBJREF | .GETOBJ => some .i64
  | _ => none

/-- The bytes of the variable that an instruction uses: `GETREF` only takes its address, the others
move a pointer. -/
def Opcode.indexedBytes : Opcode → ℕ
  | .GETREF => 1
  | _ => 8

/-- The memory after an index in the slot at `slot` was replaced, by the address of the variable or
by the pointer in it, which `GETOBJ` clears. -/
def indexReplaced (bc : Opcode) (mem : Bytes.Mem) (slot address : ℕ) : Bytes.Mem :=
  match bc with
  | .GETREF => Bytes.write mem slot 8 (BitVec.ofNat 64 address)
  | .GETOBJREF => Bytes.write mem slot 8 (Bytes.read mem address 8)
  | .GETOBJ => Bytes.write (Bytes.write mem slot 8 (Bytes.read mem address 8)) address 8 0
  | _ => mem

/-- The element of `m_storage` an index names, computed at a type: `total_space() - index`. -/
def indexedElement (stack : StackFrame) (ty : Ty) (v : ℤ) : ℤ :=
  (stack.totalSpace - v).bmod (2 ^ ty.bits)

/-- The address of that element. -/
def indexAddress (stack : StackFrame) (layout : FrameLayout) (ty : Ty) (v : ℤ) : Word :=
  BitVec.ofInt 64 (layout.address .storage + 4 * indexedElement stack ty v)

section Runs

variable {stack : StackFrame} {ins : BytecodeInstruction} {s s' : EmitState}

/-- The load of an index, and the computation of the address. -/
def indexCode (stack : StackFrame) (slot : Operand) (ty : Ty) (r : ℕ) : List Piece := [
  .instr (.load r ty slot),
  .instr (.binop (r + 1) .sub ty (constantInt ty stack.totalSpace).op (.reg r)),
  .instr (.gep (r + 2) (.frame .storage 0) (.reg (r + 1)) ty 4)]

/-- What follows the computation of the address. -/
def replaceCode (bc : Opcode) (slot : Operand) (r : ℕ) : List Piece :=
  match bc with
  | .GETREF => [.instr (.store (.ptr .i32) (.reg (r + 2)) slot)]
  | .GETOBJREF => [.instr (.load (r + 3) (.ptr .i64) (.reg (r + 2))),
      .instr (.store (.ptr .i64) (.reg (r + 3)) slot)]
  | .GETOBJ => [.instr (.load (r + 3) .i64 (.reg (r + 2))), .instr (.store .i64 (.reg (r + 3)) slot),
      .instr (.store .i64 (.const 0) (.reg (r + 2)))]
  | _ => []

/-- **The code of the three instructions.** -/
theorem replaceIndex_code {ty : Ty} (hbc : ins.bc.indexType = some ty) (hs : s.out = [])
    (h : Runs (translateOrdinary stack ins) s () s') :
    s'.out = indexCode stack (stack.slotAddress (s.stackPointer - ins.argWord0.toNat)) ty s.nextReg ++
      replaceCode ins.bc (stack.slotAddress (s.stackPointer - ins.argWord0.toNat)) s.nextReg := by
  have hcases : ins.bc = .GETREF ∨ ins.bc = .GETOBJREF ∨ ins.bc = .GETOBJ := by
    revert hbc
    cases ins.bc <;> simp [Opcode.indexType]
  rcases hcases with hop | hop | hop
  · rw [hop, Opcode.indexType, Option.some.injEq] at hbc
    subst hbc
    simp [translateOrdinary, hop, translateGetRef, variableAddress] at h
    rw [h.2, EmitState.extend_out, hs, hop]
    rfl
  · rw [hop, Opcode.indexType, Option.some.injEq] at hbc
    subst hbc
    simp [translateOrdinary, hop, translateGetObjRef, variableAddress] at h
    rw [h.2, EmitState.extend_out, hs, hop]
    rfl
  · rw [hop, Opcode.indexType, Option.some.injEq] at hbc
    subst hbc
    simp [translateOrdinary, hop, translateGetObj, variableAddress] at h
    rw [h.2, EmitState.extend_out, hs, hop]
    rfl

variable {T : Translation} {env : Env} {host : Host}

/-- An index type is a whole number of bytes, and an integer. -/
theorem Opcode.indexType_bits {bc : Opcode} {ty : Ty} (h : bc.indexType = some ty) :
    ty.bits = 8 * ty.storeSize ∧ ty.isFloatingPoint = false ∧ 0 < ty.bits ∧ ty.bits ≤ 64 := by
  revert h
  cases bc <;> simp [Opcode.indexType] <;> rintro rfl <;> decide

/-- Adding a multiple of an element to the start of the storage. -/
theorem gep_storage (base element : ℤ) :
    BitVec.ofInt 64 base + BitVec.ofNat 64 4 * BitVec.ofInt 64 element =
      BitVec.ofInt 64 (base + 4 * element) := by
  rw [BitVec.ofInt_add, BitVec.ofInt_mul]
  rfl

/-- **The address of the variable is computed**, from the index in the slot. -/
theorem indexCode_runs (host : Host) {bc : Opcode} {ty : Ty} {offset v : ℤ} (hty : bc.indexType = some ty)
    (hact : Activates T env) (hslot : T.stack.InFrame offset 8) (p : Progress) (r : ℕ)
    (hindex : Bytes.read p.world.mem (T.stack.byteAddress env.layout offset) 8 =
      BitVec.ofInt 64 v) :
    ∃ regs, regs (r + 2) = indexAddress T.stack env.layout ty v ∧ ∀ ps,
      runCode env host (indexCode T.stack (T.stack.slotAddress offset) ty r ++ ps) p =
        runCode env host ps ⟨regs, p.world⟩ := by
  obtain ⟨hbits, hint, hpos, hle⟩ := Opcode.indexType_bits hty
  have hload := (hslot.mono ty.storeSize_le).exec_load ty hact p.regs p.world.mem r
  have hword : (ty.truncate (Bytes.read p.world.mem (T.stack.byteAddress env.layout offset)
      ty.storeSize)).setWidth ty.bits = BitVec.ofInt ty.bits v := by
    rw [truncate_read hbits ty.storeSize_le, hindex, Bytes.setWidth_ofInt hle]
  generalize ty.truncate (Bytes.read p.world.mem (T.stack.byteAddress env.layout offset)
    ty.storeSize) = index at hload hword
  -- the difference, at the type of the index
  have hsub : ∃ regs, (Instr.binop (r + 1) .sub ty (constantInt ty T.stack.totalSpace).op
      (.reg r)).exec env (Function.update p.regs r index) p.world.mem = some (regs, p.world.mem) ∧
      (regs (r + 1)).setWidth ty.bits = BitVec.ofInt ty.bits (T.stack.totalSpace - v) := by
    refine ⟨Function.update (Function.update p.regs r index) (r + 1)
      ((BitVec.ofInt ty.bits (T.stack.totalSpace - v)).setWidth 64), ?_, ?_⟩
    · have hconst : ((constantInt ty T.stack.totalSpace).op.eval env
          (Function.update p.regs r index)).setWidth ty.bits =
            BitVec.ofInt ty.bits T.stack.totalSpace := by
        rw [constantInt, Operand.eval, Bytes.setWidth_ofInt hle, BitVec.setWidth_setWidth_of_le _ hle,
          BitVec.setWidth_eq]
      rw [Instr.exec, BinOp.eval, if_neg (by rw [hint]; exact Bool.false_ne_true), hconst,
        Operand.eval, Function.update_self, hword, BinOp.evalInt, ← Bytes.ofInt_sub_ofInt]
      rfl
    · rw [Function.update_self, BitVec.setWidth_setWidth_of_le _ hle, BitVec.setWidth_eq]
  obtain ⟨regs, hsub, helement⟩ := hsub
  have hgep : (Instr.gep (r + 2) (.frame .storage 0) (.reg (r + 1)) ty 4).exec env regs
      p.world.mem = some (Function.update regs (r + 2)
        (indexAddress T.stack env.layout ty v), p.world.mem) := by
    rw [Instr.exec, Operand.eval, Operand.eval, helement, BitVec.signExtend, BitVec.toInt_ofInt,
      gep_storage]
    rfl
  refine ⟨Function.update regs (r + 2) (indexAddress T.stack env.layout ty v),
    Function.update_self _ _ _, fun ps => ?_⟩
  rw [indexCode, List.cons_append, List.cons_append, List.cons_append, List.nil_append,
    runCode_step hload, runCode_step hsub, runCode_step hgep]

/-- What follows replaces the index by what lies at the address. -/
theorem replaceCode_runs {bc : Opcode} {ty : Ty} {offset : ℤ} (hty : bc.indexType = some ty)
    (hact : Activates T env) (hslot : T.stack.InFrame offset 8) (p : Progress) (r : ℕ)
    {address : Word} (haddress : p.regs (r + 2) = address) :
    ∃ regs, runCode env host (replaceCode bc (T.stack.slotAddress offset) r) p =
      .goes ⟨regs, indexReplaced bc p.world.mem (T.stack.byteAddress env.layout offset)
        address.toNat, p.world.calls⟩ := by
  have hstore : ∀ (ty : Ty), ty.storeSize = 8 → (∀ v, ty.truncate v = v) →
      ∀ regs mem value, (Instr.store ty value (T.stack.slotAddress offset)).exec env regs mem =
        some (regs, Bytes.write mem (T.stack.byteAddress env.layout offset) 8
          (value.eval env regs)) := by
    intro ty hsize htruncate regs mem value
    rw [StackFrame.InFrame.exec_store _ hact (by rwa [hsize]), hsize, htruncate]
  have hload : ∀ (ty : Ty), ty.storeSize = 8 → (∀ v, ty.truncate v = v) → ∀ mem,
      (Instr.load (r + 3) ty (.reg (r + 2))).exec env p.regs mem =
        some (Function.update p.regs (r + 3) (Bytes.read mem address.toNat 8), mem) := by
    intro ty hsize htruncate mem
    rw [exec_load_reg, hsize, htruncate, haddress]
  have hcases : bc = .GETREF ∨ bc = .GETOBJREF ∨ bc = .GETOBJ := by
    revert hty
    cases bc <;> simp [Opcode.indexType]
  rcases hcases with rfl | rfl | rfl
  · refine ⟨p.regs, ?_⟩
    rw [replaceCode, runCode_step (hstore _ rfl (Ty.truncate_ptr _) _ _ _), Operand.eval, haddress,
      indexReplaced, BitVec.ofNat_toNat, BitVec.setWidth_eq]
    rfl
  · refine ⟨Function.update p.regs (r + 3) (Bytes.read p.world.mem address.toNat 8), ?_⟩
    rw [replaceCode, runCode_step (hload _ rfl (Ty.truncate_ptr _) _),
      runCode_step (hstore _ rfl (Ty.truncate_ptr _) _ _ _)]
    simp only [Operand.eval, Function.update_self]
    rfl
  · have htruncate : ∀ v, Ty.i64.truncate v = v := fun v => by simp [Ty.truncate, Ty.bits]
    have hclear : ∀ regs mem, regs (r + 2) = address →
        (Instr.store .i64 (.const 0) (.reg (r + 2))).exec env regs mem =
          some (regs, Bytes.write mem address.toNat 8 0) := by
      intro regs mem hregs
      rw [exec_store_reg, htruncate, hregs]
      rfl
    refine ⟨Function.update p.regs (r + 3) (Bytes.read p.world.mem address.toNat 8), ?_⟩
    rw [replaceCode, runCode_step (hload _ rfl htruncate _),
      runCode_step (hstore _ rfl htruncate _ _ _),
      runCode_step (hclear _ _ (by rw [Function.update_of_ne (by omega), haddress]))]
    simp only [Operand.eval, Function.update_self]
    rfl

end Runs

/-! ### The instructions of a translated function -/

section CodeOf

variable {context : FunctionContext} {bytecode : List BytecodeInstruction}
  {ins : BytecodeInstruction} {T : Translation} {sp : ℤ} {ps : List Piece} {p q : Position}
  {env : Env} {host : Host}

/-- **What the three instructions do**, for every index: they replace it by what lies at the address
they compute. -/
theorem CodeOf.replaceIndex_runs {ty : Ty} {v : ℤ} (h : CodeOf context T bytecode ins sp ps p q)
    (host : Host) (hty : ins.bc.indexType = some ty) (hact : Activates T env)
    (hslot : T.stack.InFrame (sp - ins.argWord0.toNat) 8) (calls : List Request) (s : LocalState)
    (hindex : Bytes.read s.mem (T.stack.byteAddress env.layout (sp - ins.argWord0.toNat)) 8 =
      BitVec.ofInt 64 v) :
    ∃ regs, runCode env host ps ⟨s.regs, s.mem, calls⟩ = .goes ⟨regs, indexReplaced ins.bc s.mem
      (T.stack.byteAddress env.layout (sp - ins.argWord0.toNat))
      (indexAddress T.stack env.layout ty v).toNat, calls⟩ := by
  have hordinary : ins.bc.endsBlock = false := by
    revert hty
    cases ins.bc <;> simp [Opcode.indexType, Opcode.endsBlock, Opcode.isConditionalJump]
  obtain ⟨e, e', rfl, hout, rfl, hruns⟩ := h.ordinary hordinary
  rw [replaceIndex_code hty hout hruns]
  obtain ⟨regs, hregs, hcode⟩ := indexCode_runs host hty hact hslot
    ⟨s.regs, s.mem, calls⟩ e.nextReg hindex
  rw [hcode]
  exact replaceCode_runs hty hact hslot ⟨regs, s.mem, calls⟩ e.nextReg hregs

/-- `VAR` pushes the index of its variable. -/
theorem CodeOf.var_runs (h : CodeOf context T bytecode ins sp ps p q) (hbc : ins.bc = .VAR)
    (hact : Activates T env) (hslot : T.stack.InFrame (sp + 2) 8) (calls : List Request)
    (s : LocalState) : runCode env host ps ⟨s.regs, s.mem, calls⟩ = .goes ⟨s.regs, Bytes.write s.mem
      (T.stack.byteAddress env.layout (sp + 2)) 8 (BitVec.ofInt 64 ins.argSWord0), calls⟩ := by
  obtain ⟨e, e', rfl, hout, rfl, hruns⟩ := h.ordinary (by rw [hbc]; rfl)
  simp [translateOrdinary, hbc] at hruns
  rw [hruns.2, EmitState.extend_out, EmitState.move_out, hout, List.nil_append,
    runCode_step (StackFrame.InFrame.exec_store .i64 hact hslot _ _ _)]
  have hconst : ∀ regs, Ty.i64.truncate ((constantInt .i64 ins.argSWord0).op.eval env regs) =
      BitVec.ofInt 64 ins.argSWord0 := by
    intro regs
    simp [constantInt, Operand.eval, Ty.truncate, Ty.bits]
  rw [hconst]
  rfl

end CodeOf

/-! ### When the address is that of the variable -/

/-- The same allocas in the reverse order, from the other end of the address space. -/
def FrameLayout.mirror (layout : FrameLayout) : FrameLayout where
  address slot := 2 ^ 64 - 1 - layout.address slot - layout.size slot
  size := layout.size
  bounded slot := by
    have := layout.bounded slot
    omega
  disjoint slot slot' hne := by
    have := layout.disjoint slot slot' hne
    have := layout.bounded slot
    have := layout.bounded slot'
    omega

theorem Activates.mirror {T : Translation} {env : Env} (h : Activates T env) :
    Activates T { env with layout := env.layout.mirror } where
  blocks := h.blocks
  storage := h.storage
  valueRegister := h.valueRegister
  objectRegister := h.objectRegister
  parameter := h.parameter

/-- The element an index names is the one the AngelScript VM finds: for a `64`-bit index always, for
a `32`-bit one as far as it fits. -/
def ElementFits (stack : StackFrame) (ty : Ty) (v : ℤ) : Prop :=
  ty = .i32 → stack.totalSpace - v < 2 ^ 31

section Address

variable {T : Translation} {env : Env} {ty : Ty} {v : ℤ}

/-- The size of a frame, and of the indices `VAR` can push. -/
structure SmallFrame (stack : StackFrame) (v : ℤ) : Prop where
  total : 0 < stack.totalSpace ∧ stack.totalSpace < 2 ^ 32 + 8
  index : -(2 ^ 15) ≤ v ∧ v < 2 ^ 15

theorem indexedElement_i64 (h : SmallFrame T.stack v) :
    indexedElement T.stack .i64 v = T.stack.totalSpace - v := by
  obtain ⟨htotal, hindex⟩ := h
  rw [indexedElement, Ty.bits, Int.bmod_eq_of_le (by omega) (by omega)]

theorem indexedElement_i32 : ∃ k : ℤ,
    indexedElement T.stack .i32 v = T.stack.totalSpace - v - 2 ^ 32 * k ∧
      -(2 ^ 31) ≤ indexedElement T.stack .i32 v ∧ indexedElement T.stack .i32 v < 2 ^ 31 := by
  have hlow := Int.le_bmod (x := T.stack.totalSpace - v) (m := 2 ^ 32) (by decide)
  have hhigh := Int.bmod_lt (x := T.stack.totalSpace - v) (m := 2 ^ 32) (by decide)
  refine ⟨(T.stack.totalSpace - v).bdiv (2 ^ 32), ?_, ?_⟩
  · rw [indexedElement, Ty.bits, Int.bmod_eq_self_sub_mul_bdiv]
    rfl
  · rw [indexedElement, Ty.bits]
    omega

theorem indexAddress_toNat : ((indexAddress T.stack env.layout ty v).toNat : ℤ) =
    (env.layout.address .storage + 4 * indexedElement T.stack ty v) % 2 ^ 64 := by
  rw [indexAddress, BitVec.toNat_ofInt]
  omega

/-- **A local has the address that is computed**, as far as its element fits. -/
theorem indexAddress_eq_iff (hact : Activates T env) (hty : ty = .i32 ∨ ty = .i64)
    (hsmall : SmallFrame T.stack v) (hframe : T.stack.InFrame v 1) (hpos : 0 < v) :
    (indexAddress T.stack env.layout ty v).toNat = T.stack.byteAddress env.layout v ↔
      ElementFits T.stack ty v := by
  have hbounded := env.layout.bounded .storage
  have hsize := hact.storage
  have hnat := @indexAddress_toNat T env ty v
  obtain ⟨⟨htotal, htotal'⟩, hindex⟩ := hsmall
  rw [StackFrame.InFrame, if_neg (by omega)] at hframe
  rw [StackFrame.byteAddress, if_neg (by omega), ElementFits]
  rcases hty with rfl | rfl
  · obtain ⟨k, helement, hlow, hhigh⟩ := @indexedElement_i32 T v
    constructor
    · intro heq _
      omega
    · intro hfits
      have := hfits rfl
      omega
  · have helement := @indexedElement_i64 T v ⟨⟨htotal, htotal'⟩, hindex⟩
    constructor
    · intro _ h
      exact absurd h (by decide)
    · intro _
      omega

/-- **A parameter has another address than the one that is computed**, in one of two layouts. -/
theorem indexAddress_ne (hact : Activates T env) (hty : ty = .i32 ∨ ty = .i64)
    (hsmall : SmallFrame T.stack v) (hframe : T.stack.InFrame v 1) (hneg : v ≤ 0) :
    (indexAddress T.stack env.layout ty v).toNat ≠ T.stack.byteAddress env.layout v ∨
      (indexAddress T.stack env.layout.mirror ty v).toNat ≠
        T.stack.byteAddress env.layout.mirror v := by
  have hbounded := env.layout.bounded .storage
  have hbounded' := env.layout.bounded (.parameter v)
  have hsize := hact.storage
  have hnat := @indexAddress_toNat T env ty v
  have hnat' := @indexAddress_toNat T { env with layout := env.layout.mirror } ty v
  obtain ⟨⟨htotal, htotal'⟩, hindex⟩ := hsmall
  rw [StackFrame.InFrame, if_pos hneg] at hframe
  obtain ⟨parameter, hlookup, -⟩ := hframe
  have hparameter := hact.parameter v parameter hlookup
  have hle := parameter.ty.storeSize_le
  simp only [FrameLayout.mirror] at hnat'
  simp only [StackFrame.byteAddress, if_pos hneg, FrameLayout.mirror]
  rw [← not_and_or]
  rintro ⟨heq, heq'⟩
  rw [heq] at hnat
  rw [heq'] at hnat'
  -- the two equations together: eight times the element would be four times the total space
  rcases hty with rfl | rfl
  · obtain ⟨k, helement, hlow, hhigh⟩ := @indexedElement_i32 T v
    omega
  · have helement := @indexedElement_i64 T v ⟨⟨htotal, htotal'⟩, hindex⟩
    omega

end Address

/-! ### The variable is used -/

/-- Where the index lies that an instruction replaces. -/
def indexSlot (ins : BytecodeInstruction) (sp : ℤ) : ℤ := sp - ins.argWord0.toNat

/-- **The instruction uses the variable `v`**, where the static instructions find it: in every
activation, it replaces the index by the address or the content of `v`, and changes nothing else. -/
def ReplacesIndex (T : Translation) (ins : BytecodeInstruction) (sp : ℤ) (ps : List Piece)
    (p q : Position) (v : ℤ) : Prop :=
  ∀ (env : Env) (host : Host) (calls : List Request) (s : LocalState), Activates T env →
    s.position = p →
    Bytes.read s.mem (T.stack.byteAddress env.layout (indexSlot ins sp)) 8 = BitVec.ofInt 64 v →
    ∃ regs mem, mem = indexReplaced ins.bc s.mem
        (T.stack.byteAddress env.layout (indexSlot ins sp)) (T.stack.byteAddress env.layout v) ∧
      runCode env host ps ⟨s.regs, s.mem, calls⟩ = .goes ⟨regs, mem, calls⟩ ∧
      Reaches env host (fun _ => True) calls s calls ⟨q, regs, mem, some ins.offset⟩

section Uses

variable {context : FunctionContext} {bytecode : List BytecodeInstruction}
  {ins : BytecodeInstruction} {T : Translation} {sp v : ℤ} {ps : List Piece} {p q : Position}
  {ty : Ty} {env : Env}

/-- The instruction uses the variable if that has the address that is computed. -/
theorem CodeOf.replacesIndex_of_eq (h : CodeOf context T bytecode ins sp ps p q)
    (hty : ins.bc.indexType = some ty) (hslot : T.stack.InFrame (indexSlot ins sp) 8)
    (haddress : ∀ env, Activates T env →
      (indexAddress T.stack env.layout ty v).toNat = T.stack.byteAddress env.layout v) :
    ReplacesIndex T ins sp ps p q v := by
  intro env host calls s hact hs hindex
  obtain ⟨regs, hcode⟩ := h.replaceIndex_runs host hty hact hslot calls s hindex
  have hreached := h.reached host (fun _ => True) calls hact.blocks hs fun _ _ => trivial
  rw [haddress env hact] at hcode
  rw [hcode] at hreached
  exact ⟨regs, _, rfl, hcode, hreached⟩

/-- The memory in which the slot holds the index, and only the byte at `marked` is not zero
elsewhere. -/
def memoryWithIndex (slot marked : ℕ) (v : ℤ) : Bytes.Mem :=
  Bytes.write (fun x => if x = marked then 1 else 0) slot 8 (BitVec.ofInt 64 v)

theorem memoryWithIndex_read (slot marked : ℕ) (v : ℤ) :
    Bytes.read (memoryWithIndex slot marked v) slot 8 = BitVec.ofInt 64 v := by
  rw [memoryWithIndex, Bytes.read_write_same, BitVec.setWidth_eq, BitVec.setWidth_eq]

/-- The byte the slot starts with afterwards is the one the moved pointer starts with. -/
theorem indexReplaced_first {bc : Opcode} (hbc : bc = .GETOBJREF ∨ bc = .GETOBJ) {mem : Bytes.Mem}
    {slot address : ℕ} (hne : slot < address ∨ address + 8 ≤ slot) :
    indexReplaced bc mem slot address slot = mem address := by
  have hfirst : Bytes.write mem slot 8 (Bytes.read mem address 8) slot = mem address := by
    rw [Bytes.write_first (by decide), Bytes.setWidth_read_byte (by decide)]
  rcases hbc with rfl | rfl
  · exact hfirst
  · rw [indexReplaced, Bytes.write_outside hne, hfirst]

/-- What is computed for a parameter lies apart from the temporary stack, whether or not the address
wraps around. -/
theorem computed_apart (hact : Activates T env) {o : ℤ} (hslot : T.stack.InFrame o 8) (hpos : 0 < o)
    (hsmall : SmallFrame T.stack v) (hneg : v ≤ 0) :
    T.stack.byteAddress env.layout o + 8 ≤ (indexAddress T.stack env.layout .i64 v).toNat ∨
      (indexAddress T.stack env.layout .i64 v).toNat + 8 ≤ T.stack.byteAddress env.layout o := by
  have hbounded := env.layout.bounded .storage
  have hsize := hact.storage
  have hnat := @indexAddress_toNat T env .i64 v
  have helement := @indexedElement_i64 T v hsmall
  obtain ⟨⟨htotal, htotal'⟩, hindex⟩ := hsmall
  rw [StackFrame.InFrame, if_neg (by omega)] at hslot
  rw [StackFrame.byteAddress, if_neg (by omega)]
  omega

/-- A parameter lies apart from the temporary stack. -/
theorem parameter_apart (hact : Activates T env) {o : ℤ} (hslot : T.stack.InFrame o 8) (hpos : 0 < o)
    (hframe : T.stack.InFrame v 8) (hneg : v ≤ 0) :
    T.stack.byteAddress env.layout o + 8 ≤ T.stack.byteAddress env.layout v ∨
      T.stack.byteAddress env.layout v + 8 ≤ T.stack.byteAddress env.layout o := by
  have hdisjoint := env.layout.disjoint .storage (.parameter v) (by simp)
  have hslot' := hslot.within hact
  have hframe' := hframe.within hact
  rw [StackFrame.slot, if_neg (by omega)] at hslot'
  rw [StackFrame.slot, if_pos hneg] at hframe'
  omega

/-- The memory an instruction leaves, if it uses the variable. -/
theorem CodeOf.indexReplaced_eq (h : CodeOf context T bytecode ins sp ps p q)
    (hty : ins.bc.indexType = some ty) (hact : Activates T env)
    (hslot : T.stack.InFrame (indexSlot ins sp) 8) (huses : ReplacesIndex T ins sp ps p q v)
    (mem : Bytes.Mem) (hindex : Bytes.read mem (T.stack.byteAddress env.layout (indexSlot ins sp)) 8 =
      BitVec.ofInt 64 v) :
    indexReplaced ins.bc mem (T.stack.byteAddress env.layout (indexSlot ins sp))
        (indexAddress T.stack env.layout ty v).toNat =
      indexReplaced ins.bc mem (T.stack.byteAddress env.layout (indexSlot ins sp))
        (T.stack.byteAddress env.layout v) := by
  let host : Host := fun _ => (0, fun _ => 0)
  let s : LocalState := ⟨p, fun _ => 0, mem, none⟩
  obtain ⟨regs, hcode⟩ := h.replaceIndex_runs host hty hact hslot [] s hindex
  obtain ⟨regs', mem', rfl, hcode', -⟩ := huses env host [] s hact rfl hindex
  obtain ⟨-, hworld⟩ := Progress.mk.inj (CodeResult.goes.inj (hcode.symm.trans hcode'))
  exact (World.mk.inj hworld).1

/-- **A `GETREF` that uses the variable computes its address.** -/
theorem CodeOf.eq_of_replacesIndex_getRef (h : CodeOf context T bytecode ins sp ps p q)
    (hbc : ins.bc = .GETREF) (hact : Activates T env)
    (hslot : T.stack.InFrame (indexSlot ins sp) 8) (hframe : T.stack.InFrame v 1)
    (huses : ReplacesIndex T ins sp ps p q v) :
    (indexAddress T.stack env.layout .i32 v).toNat = T.stack.byteAddress env.layout v := by
  have hmem := h.indexReplaced_eq (by rw [hbc]; rfl) hact hslot huses _
    (memoryWithIndex_read _ 0 v)
  have hread := congrArg (Bytes.read · (T.stack.byteAddress env.layout (indexSlot ins sp)) 8) hmem
  simp only [hbc, indexReplaced, Bytes.read_write_same, BitVec.setWidth_eq] at hread
  have hnat := congrArg BitVec.toNat hread
  rw [BitVec.toNat_ofNat, BitVec.toNat_ofNat] at hnat
  have hcomputed := (indexAddress T.stack env.layout .i32 v).isLt
  have hbounded := env.layout.bounded (StackFrame.slot v)
  have hwithin := hframe.within hact
  omega

/-- **An instruction that moves the pointer in a parameter computes its address**: else a byte that
is only at the one of the two addresses would tell. -/
theorem CodeOf.eq_of_replacesIndex_pointer (h : CodeOf context T bytecode ins sp ps p q)
    (hbc : ins.bc = .GETOBJREF ∨ ins.bc = .GETOBJ) (hact : Activates T env)
    (hslot : T.stack.InFrame (indexSlot ins sp) 8) (hpos : 0 < indexSlot ins sp)
    (hsmall : SmallFrame T.stack v) (hframe : T.stack.InFrame v 8) (hneg : v ≤ 0)
    (huses : ReplacesIndex T ins sp ps p q v) :
    (indexAddress T.stack env.layout .i64 v).toNat = T.stack.byteAddress env.layout v := by
  have hty : ins.bc.indexType = some .i64 := by
    rcases hbc with hbc | hbc
    · rw [hbc]
      rfl
    · rw [hbc]
      rfl
  have hcomputed := computed_apart hact hslot hpos hsmall hneg
  have hparameter := parameter_apart hact hslot hpos hframe hneg
  have hmem := h.indexReplaced_eq hty hact hslot huses _
    (memoryWithIndex_read _ (indexAddress T.stack env.layout .i64 v).toNat v)
  generalize (indexAddress T.stack env.layout .i64 v).toNat = computed at hcomputed hmem
  generalize T.stack.byteAddress env.layout (indexSlot ins sp) = slot at hcomputed hparameter hmem
  generalize T.stack.byteAddress env.layout v = address at hparameter hmem
  by_contra hne
  have hbyte := congrFun hmem slot
  rw [indexReplaced_first hbc (by omega), indexReplaced_first hbc (by omega), memoryWithIndex,
    Bytes.write_outside (by omega), Bytes.write_outside (by omega), if_pos rfl,
    if_neg (Ne.symm hne)] at hbyte
  exact absurd hbyte (by decide)

/-- **When an instruction uses the variable**: iff the variable is a local, and, for a `GETREF`, its
element fits. -/
theorem CodeOf.replacesIndex_iff (h : CodeOf context T bytecode ins sp ps p q)
    (hty : ins.bc.indexType = some ty) (hact : Activates T env)
    (hslot : T.stack.InFrame (indexSlot ins sp) 8) (hpos : 0 < indexSlot ins sp)
    (hsmall : SmallFrame T.stack v) (hframe : T.stack.InFrame v ins.bc.indexedBytes) :
    ReplacesIndex T ins sp ps p q v ↔ 0 < v ∧ ElementFits T.stack ty v := by
  have hbytes : 1 ≤ ins.bc.indexedBytes := by
    cases ins.bc <;> decide
  have hframe₁ := hframe.mono hbytes
  have hcases : (ins.bc = .GETREF ∧ ty = .i32) ∨
      ((ins.bc = .GETOBJREF ∨ ins.bc = .GETOBJ) ∧ ty = .i64 ∧ ins.bc.indexedBytes = 8) := by
    revert hty
    cases ins.bc <;> simp [Opcode.indexType, Opcode.indexedBytes, eq_comm]
  have htype : ty = .i32 ∨ ty = .i64 := by
    rcases hcases with ⟨-, hty⟩ | ⟨-, hty, -⟩
    · exact .inl hty
    · exact .inr hty
  constructor
  · intro huses
    have hlocal : 0 < v := by
      by_contra hneg
      rw [not_lt] at hneg
      have heq : ∀ env, Activates T env →
          (indexAddress T.stack env.layout ty v).toNat = T.stack.byteAddress env.layout v := by
        intro env hact
        rcases hcases with ⟨hbc, rfl⟩ | ⟨hbc, rfl, height⟩
        · exact h.eq_of_replacesIndex_getRef hbc hact hslot hframe₁ huses
        · rw [height] at hframe
          exact h.eq_of_replacesIndex_pointer hbc hact hslot hpos hsmall hframe hneg huses
      rcases indexAddress_ne hact htype hsmall hframe₁ hneg with hne | hne
      · exact hne (heq env hact)
      · exact hne (heq _ hact.mirror)
    refine ⟨hlocal, ?_⟩
    rcases hcases with ⟨hbc, rfl⟩ | ⟨hbc, rfl, -⟩
    · exact (indexAddress_eq_iff hact htype hsmall hframe₁ hlocal).mp
        (h.eq_of_replacesIndex_getRef hbc hact hslot hframe₁ huses)
    · exact fun h32 => absurd h32 (by decide)
  · rintro ⟨hlocal, hfits⟩
    exact h.replacesIndex_of_eq hty hslot fun env hact =>
      (indexAddress_eq_iff hact htype hsmall hframe₁ hlocal).mpr hfits

end Uses

/-! ### Run-time indices of a translated function -/

section Indexing

variable {context : FunctionContext} {bytecode : List BytecodeInstruction}
  {ins var : BytecodeInstruction} {T : Translation} {sp sp' : ℤ} {ps ps' : List Piece}
  {p q p' q' : Position} {ty : Ty} {env : Env}

/-- A word argument is small, and `stackNeeded` is an `asUINT`. -/
theorem CodeOf.smallFrame (h : CodeOf context T bytecode ins sp ps p q)
    (hneeded : context.scriptFunction.scriptData.stackNeeded < 2 ^ 32) (var : BytecodeInstruction) :
    SmallFrame T.stack var.argSWord0 := by
  have htotal : T.stack.totalSpace = context.scriptFunction.scriptData.stackNeeded + 4 := by
    rw [h.stack_eq, FunctionContext.totalSpace_eq]
  have hlow := BitVec.le_toInt var.argWord0
  have hhigh := BitVec.toInt_lt (x := var.argWord0)
  refine ⟨?_, ?_⟩
  · omega
  · rw [BytecodeInstruction.argSWord0]
    omega

/-- **`VAR` leaves the index of its variable on the stack**, and changes nothing else. -/
def PushesIndex (T : Translation) (var : BytecodeInstruction) (sp : ℤ) (p q : Position) : Prop :=
  ∀ (env : Env) (host : Host) (calls : List Request) (s : LocalState), Activates T env →
    s.position = p → Reaches env host (fun _ => True) calls s calls ⟨q, s.regs, Bytes.write s.mem
      (T.stack.byteAddress env.layout (sp + asPtrSize)) 8 (BitVec.ofInt 64 var.argSWord0),
      some var.offset⟩

theorem CodeOf.pushesIndex (h : CodeOf context T bytecode var sp ps p q) (hvar : var.bc = .VAR)
    (hslot : T.stack.InFrame (sp + asPtrSize) 8) : PushesIndex T var sp p q := by
  intro env host calls s hact hs
  have hreached := h.reached host (fun _ => True) calls hact.blocks hs fun _ _ => trivial
  rw [h.var_runs hvar hact hslot] at hreached
  exact hreached

/-- **When run-time indices use the variables that static instructions use**, for every function
and every index `VAR` pushes: iff the index is that of a local. An index into a storage with more
elements than an `i32` counts must not be left to `GETREF`. -/
theorem runTimeIndices_iff
    (hneeded : context.scriptFunction.scriptData.stackNeeded < 2 ^ 32) (hvar : var.bc = .VAR)
    (hcode : CodeOf context T bytecode var sp ps p q)
    (hpushed : T.stack.InFrame (sp + asPtrSize) 8)
    (hcode' : CodeOf context T bytecode ins sp' ps' p' q') (hty : ins.bc.indexType = some ty)
    (hslot : T.stack.InFrame (indexSlot ins sp') 8) (hpos : 0 < indexSlot ins sp')
    (hframe : T.stack.InFrame var.argSWord0 ins.bc.indexedBytes) (hact : Activates T env) :
    PushesIndex T var sp p q ∧ (ReplacesIndex T ins sp' ps' p' q' var.argSWord0 ↔
      0 < var.argSWord0 ∧ ElementFits T.stack ty var.argSWord0) :=
  ⟨hcode.pushesIndex hvar hpushed, hcode'.replacesIndex_iff hty hact hslot hpos
    (hcode'.smallFrame hneeded var) hframe⟩

/-- A function that takes an `int` and needs two variables. -/
def indexContext : FunctionContext where
  engine := .ofFunctions []
  config := ⟨false, true⟩
  scriptFunction := .free 1 (.primitive .ttVoid) [.primitive .ttInt] 2

/-- The index of a variable, the high half of `dword`, is pushed. -/
def indexVar (dword : BitVec 32) : BytecodeInstruction := ⟨[dword], ⟨.VAR, 1, 2, by decide⟩, 0⟩

/-- The index on top of the stack is replaced by the address of the variable. -/
def indexGetRef : BytecodeInstruction := ⟨[0], ⟨.GETREF, 1, 0, by decide⟩, 1⟩

/-- The address of a variable is pushed and popped again. -/
def indexBytecode (dword : BitVec 32) : List BytecodeInstruction := [
  indexVar dword,
  indexGetRef,
  popPtrAt 2,
  retAt 3]

theorem indexBytecode_walked (dword : BitVec 32) : Walked (indexBytecode dword) := by
  simp [indexBytecode, indexVar, indexGetRef, popPtrAt, retAt, WalkedFrom, BytecodeInstruction.next]

/-- The code of the `GETREF` of a bytecode that pushes and pops the address of a variable. -/
theorem exists_codeOf_index {dword : BitVec 32}
    (hT : translateBytecode indexContext (indexBytecode dword) = .ok T) :
    (∃ ps p q, CodeOf indexContext T (indexBytecode dword) (indexVar dword) 2 ps p q) ∧
      ∃ ps p q, CodeOf indexContext T (indexBytecode dword) indexGetRef 4 ps p q :=
  ⟨exists_codeOf_at [] _ (indexBytecode_walked dword) hT,
    exists_codeOf_at [indexVar dword] _ (indexBytecode_walked dword) hT⟩

end Indexing

/-- The local at `1`, and the parameter at `0`. -/
theorem translateBytecode_index :
    (∃ T, translateBytecode indexContext (indexBytecode 0x10000) = .ok T ∧
      T.stack.parameters = [(0, ⟨0, .i32⟩)]) ∧
    ∃ T, translateBytecode indexContext (indexBytecode 0) = .ok T ∧
      T.stack.parameters = [(0, ⟨0, .i32⟩)] :=
  ⟨exists_ok_of_map (by decide +kernel), exists_ok_of_map (by decide +kernel)⟩

/-- The address of a local, in particular. -/
theorem runTimeIndices_iff_local : ∃ T ps p q,
    CodeOf indexContext T (indexBytecode 0x10000) indexGetRef 4 ps p q ∧
      ReplacesIndex T indexGetRef 4 ps p q (indexVar 0x10000).argSWord0 := by
  obtain ⟨T, hT, hparameters⟩ := translateBytecode_index.1
  obtain ⟨⟨ps, p, q, hcode⟩, ps', p', q', hcode'⟩ := exists_codeOf_index hT
  have htotal : T.stack.totalSpace = 6 := by
    rw [hcode.stack_eq]
    rfl
  have hact := T.activates_env (by omega) [] (by rw [hparameters]; decide)
  have hpushed : T.stack.InFrame (2 + asPtrSize) 8 :=
    StackFrame.inFrame_storage (by decide) (by rw [htotal]; decide) (by decide)
  have hlocal : T.stack.InFrame 1 1 := StackFrame.inFrame_storage (by decide) (by omega) (by decide)
  refine ⟨T, ps', p', q', hcode', (runTimeIndices_iff (by decide) rfl hcode hpushed hcode' rfl hpushed
    (by decide) hlocal hact).2.mpr ⟨by decide, fun _ => ?_⟩⟩
  rw [htotal]
  decide

/-- **The address of a parameter is not computed**: a function that takes an `int` and pushes its
address with an index. -/
theorem runTimeIndices_not_parameter : ∃ T ps p q,
    translateBytecode indexContext (indexBytecode 0) = .ok T ∧
      CodeOf indexContext T (indexBytecode 0) indexGetRef 4 ps p q ∧
      T.stack.parameters = [((indexVar 0).argSWord0, ⟨0, .i32⟩)] ∧
      ¬ ReplacesIndex T indexGetRef 4 ps p q (indexVar 0).argSWord0 := by
  obtain ⟨T, hT, hparameters⟩ := translateBytecode_index.2
  obtain ⟨-, ps, p, q, hcode⟩ := exists_codeOf_index hT
  have htotal : T.stack.totalSpace = 6 := by
    rw [hcode.stack_eq]
    rfl
  have hact := T.activates_env (by omega) [] (by rw [hparameters]; decide)
  have hslot : T.stack.InFrame (indexSlot indexGetRef 4) 8 :=
    StackFrame.inFrame_storage (by decide) (by rw [htotal]; decide) (by decide)
  have hparameter : T.stack.InFrame (indexVar 0).argSWord0 1 := by
    rw [StackFrame.InFrame, if_pos (by decide), hparameters]
    exact ⟨⟨0, .i32⟩, rfl, by decide⟩
  refine ⟨T, ps, p, q, hT, hcode, hparameters, fun huses => ?_⟩
  have hlocal := (hcode.replacesIndex_iff rfl hact hslot (by decide)
    (hcode.smallFrame (by decide) (indexVar 0)) hparameter).mp huses
  exact absurd hlocal.1 (by decide)

end Asllvm
