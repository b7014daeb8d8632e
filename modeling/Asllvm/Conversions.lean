import Asllvm.Arithmetic

/-!
# Integer Conversions

`emit_cast` loads a variable at the source type, converts the value and stores it at the destination
type. Which variable it loads follows from the widths of the types. What it stores has the width of
the type and not that of the slot: a conversion to a byte or a word leaves the rest of its dword as
it was, where the AngelScript VM clears it.

* `Opcode.conversion` — the types of an integer conversion.
* `Opcode.vmSource`, `Opcode.vmResult` — what the AngelScript VM reads and computes.

## Main results

* `emitCast_source` — the variable that is loaded is the one of the encoding.
* `storedResult_eq` — the value that is stored is the one of the VM, as far as it goes.
* `conversions_normalised_iff` — when the whole slot is as the VM leaves it.
-/

open StateExcept

namespace Asllvm

/-- The conversion `translate_instruction` emits for an instruction between integers. -/
def Opcode.conversion : Opcode → Option (CastOp × Ty × Ty)
  | .sbTOi => some (.sext, .i8, .i32)
  | .swTOi => some (.sext, .i16, .i32)
  | .ubTOi => some (.zext, .i8, .i32)
  | .uwTOi => some (.zext, .i16, .i32)
  | .iTOb => some (.trunc, .i32, .i8)
  | .iTOw => some (.trunc, .i32, .i16)
  | .i64TOi => some (.trunc, .i64, .i32)
  | .uTOi64 => some (.zext, .i32, .i64)
  | .iTOi64 => some (.sext, .i32, .i64)
  | _ => none

/-! ### The AngelScript VM -/

/-- The variable the VM reads: the second operand, where the encoding has one. -/
def BytecodeInstruction.vmSource (ins : BytecodeInstruction) : ℤ :=
  match ins.bc with
  | .i64TOi | .uTOi64 | .iTOi64 => ins.argSWord1
  | _ => ins.argSWord0

/-- The bytes of the destination: a dword, or two for a result of 64 bits. -/
def Opcode.slotBytes : Opcode → ℕ
  | .uTOi64 | .iTOi64 => 8
  | _ => 4

/-- What the VM stores in the whole destination. A conversion to a byte or a word clears the rest of
the dword. -/
def Opcode.vmResult (bc : Opcode) (source : Word) : Word :=
  match bc with
  | .sbTOi => ((source.setWidth 8).signExtend 32).setWidth 64
  | .swTOi => ((source.setWidth 16).signExtend 32).setWidth 64
  | .ubTOi | .iTOb => (source.setWidth 8).setWidth 64
  | .uwTOi | .iTOw => (source.setWidth 16).setWidth 64
  | .i64TOi | .uTOi64 => (source.setWidth 32).setWidth 64
  | .iTOi64 => (source.setWidth 32).signExtend 64
  | _ => 0

/-! ### The code of a conversion -/

section Code

variable {stack : StackFrame} {ins : BytecodeInstruction} {s s' : EmitState} {op : CastOp}
variable {src dst : Ty}

theorem Opcode.conversion_ordinary {bc : Opcode} (h : bc.conversion = some (op, src, dst)) :
    bc.endsBlock = false := by
  unfold Opcode.conversion at h
  split at h <;> cases h <;> rfl

theorem translateOrdinary_conversion (h : ins.bc.conversion = some (op, src, dst)) :
    translateOrdinary stack ins = emitCast stack ins op src dst := by
  unfold Opcode.conversion at h
  split at h <;> cases h <;> rename_i hbc <;> rw [translateOrdinary, hbc]

/-- **The operand that is inferred from the widths is the one of the encoding.** -/
theorem emitCast_source (h : ins.bc.conversion = some (op, src, dst)) :
    (if src.is64 != dst.is64 then ins.argSWord1 else ins.argSWord0) = ins.vmSource := by
  unfold Opcode.conversion at h
  split at h <;> cases h <;> rename_i hbc <;> rw [BytecodeInstruction.vmSource, hbc] <;> rfl

/-- The code of `emit_cast`. -/
def castCode (stack : StackFrame) (ins : BytecodeInstruction) (op : CastOp) (src dst : Ty) (r : ℕ) :
    List Piece := [
  .instr (.load r src (stack.slotAddress ins.vmSource)),
  .instr (.cast (r + 1) op src (.reg r) dst),
  .instr (.store dst (.reg (r + 1)) (stack.slotAddress ins.argSWord0))]

/-- **The code of a conversion.** -/
theorem conversion_code (hop : ins.bc.conversion = some (op, src, dst)) (hs : s.out = [])
    (h : Runs (translateOrdinary stack ins) s () s') :
    stack.Addressable ins.vmSource ∧ stack.Addressable ins.argSWord0 ∧
      s'.out = castCode stack ins op src dst s.nextReg := by
  rw [translateOrdinary_conversion hop, emitCast, emitCast_source hop] at h
  simp at h
  obtain ⟨hsource, hdest, rfl⟩ := h
  exact ⟨hsource, hdest, by rw [EmitState.extend_out, hs]; rfl⟩

end Code

/-! ### The values -/

/-- What the code stores: a value of the destination type. -/
def storedResult (floats : FloatOps) (op : CastOp) (src dst : Ty) (source : Word) : Word :=
  dst.truncate (op.eval floats src (src.truncate source) dst)

theorem setWidth_signExtend {w m n : ℕ} (x : BitVec w) (h : m ≤ n) :
    (x.signExtend n).setWidth m = x.signExtend m := by
  apply BitVec.eq_of_getLsbD_eq
  intro i hi
  have hn : i < n := by omega
  rw [BitVec.getLsbD_setWidth, BitVec.getLsbD_signExtend, BitVec.getLsbD_signExtend]
  simp only [hi, hn, decide_true, Bool.true_and]

/-- **The value that is stored is the one of the VM.** -/
theorem storedResult_eq {bc : Opcode} {op : CastOp} {src dst : Ty}
    (hop : bc.conversion = some (op, src, dst)) (floats : FloatOps) (source : Word) :
    storedResult floats op src dst source = bc.vmResult source := by
  unfold Opcode.conversion at hop
  split at hop <;> cases hop <;>
    simp [storedResult, CastOp.eval, Ty.truncate, Ty.bits, Opcode.vmResult, setWidth_signExtend]

/-! ### What the code leaves behind -/

section Runs

variable {T : Translation} {env : Env} {ins : BytecodeInstruction} {op : CastOp} {src dst : Ty}

/-- An access of a variable that `pointer_to` accepts is inside an alloca iff the variable has that
many bytes. -/
theorem StackFrame.Addressable.accessible_iff {o : ℤ} {n : ℕ} (hact : Activates T env)
    (h : T.stack.Addressable o) :
    env.accessible (T.stack.slotAddress o) n = true ↔ T.stack.InFrame o n := by
  refine ⟨fun haccessible => ?_, StackFrame.InFrame.accessible hact⟩
  rw [StackFrame.slotAddress] at haccessible
  rw [StackFrame.InFrame]
  by_cases ho : o ≤ 0
  · rw [StackFrame.Addressable, if_pos ho] at h
    obtain ⟨parameter, hlookup⟩ := Option.isSome_iff_exists.mp h
    rw [if_pos ho, Env.accessible, hact.parameter o parameter hlookup,
      decide_eq_true_eq] at haccessible
    rw [if_pos ho]
    exact ⟨parameter, hlookup, by omega⟩
  · rw [if_neg ho, Env.accessible, hact.storage, decide_eq_true_eq] at haccessible
    rw [if_neg ho]
    omega

/-- **What a conversion does** to variables of its types: it stores the value of the VM, at the width
of the destination type. -/
theorem castCode_goes (hop : ins.bc.conversion = some (op, src, dst)) (hact : Activates T env)
    (hsource : T.stack.InFrame ins.vmSource src.storeSize)
    (hdest : T.stack.InFrame ins.argSWord0 dst.storeSize) (host : Host) (p : Progress) (r : ℕ) :
    ∃ regs, runCode env host (castCode T.stack ins op src dst r) p = .goes ⟨regs,
      Bytes.write p.world.mem (T.stack.byteAddress env.layout ins.argSWord0) dst.storeSize
        (ins.bc.vmResult (Bytes.read p.world.mem (T.stack.byteAddress env.layout ins.vmSource)
          src.storeSize)), p.world.calls⟩ := by
  have hload := hsource.exec_load src hact p.regs p.world.mem r
  apply Exists.intro
  refine (runCode_step hload).trans ((runCode_step rfl).trans
    ((runCode_step (hdest.exec_store dst hact _ _ _)).trans ?_))
  rw [Operand.eval, Function.update_self, Operand.eval, Function.update_self,
    ← storedResult_eq hop env.floats]
  rfl

/-- **A conversion of something that is not a variable of its types** does nothing LLVM defines. -/
theorem castCode_stuck (op : CastOp) (hact : Activates T env)
    (hsource : T.stack.Addressable ins.vmSource)
    (hdest : T.stack.Addressable ins.argSWord0)
    (h : ¬ (T.stack.InFrame ins.vmSource src.storeSize ∧
      T.stack.InFrame ins.argSWord0 dst.storeSize)) (host : Host) (p : Progress) (r : ℕ) :
    ∃ p', runCode env host (castCode T.stack ins op src dst r) p = .stuck p' := by
  rw [castCode]
  by_cases hload : T.stack.InFrame ins.vmSource src.storeSize
  · refine ⟨_, (runCode_step (hload.exec_load src hact p.regs p.world.mem r)).trans
      ((runCode_step rfl).trans (runCode_stuck (by simp) ?_))⟩
    rw [Instr.exec, if_neg]
    rw [hdest.accessible_iff hact]
    exact fun hstore => h ⟨hload, hstore⟩
  · refine ⟨p, runCode_stuck (by simp) ?_⟩
    rw [Instr.exec, if_neg]
    rwa [hsource.accessible_iff hact]

end Runs

/-! ### Against the AngelScript VM -/

/-- **A conversion does what the VM does**: from any contents of the frame it goes on, the whole slot
of its destination is what the VM computes from its source, and no other byte has changed. -/
def ConvertsAsVm (T : Translation) (ins : BytecodeInstruction) (src : Ty) (ps : List Piece)
    (q : Position) (env : Env) (host : Host) (calls : List Request) (s : LocalState) : Prop :=
  ∃ regs mem, runCode env host ps ⟨s.regs, s.mem, calls⟩ = .goes ⟨regs, mem, calls⟩ ∧
    Reaches env host (fun _ => True) calls s calls ⟨q, regs, mem, some ins.offset⟩ ∧
    Bytes.read mem (T.stack.byteAddress env.layout ins.argSWord0) ins.bc.slotBytes =
      ins.bc.vmResult (Bytes.read s.mem (T.stack.byteAddress env.layout ins.vmSource)
        src.storeSize) ∧
    ∀ a, a < T.stack.byteAddress env.layout ins.argSWord0 ∨
      T.stack.byteAddress env.layout ins.argSWord0 + ins.bc.slotBytes ≤ a → mem a = s.mem a

/-- The operands of a conversion are variables of their sizes, and **the slot of the destination
holds no more bits than the type it is converted to**. -/
structure NarrowDestination (T : Translation) (ins : BytecodeInstruction) (src dst : Ty) (env : Env)
    (mem : Bytes.Mem) : Prop where
  source : T.stack.InFrame ins.vmSource src.storeSize
  destination : T.stack.InFrame ins.argSWord0 ins.bc.slotBytes
  narrow : (Bytes.read mem (T.stack.byteAddress env.layout ins.argSWord0) ins.bc.slotBytes).toNat <
    2 ^ dst.bits

section Normalisation

variable {context : FunctionContext} {bytecode : List BytecodeInstruction}
  {ins : BytecodeInstruction} {T : Translation} {sp : ℤ} {ps : List Piece} {p q : Position}
  {op : CastOp} {src dst : Ty} {env : Env}

/-- The slot of the destination is the type of the result, and what the code leaves alone. -/
theorem Opcode.conversion_slot {bc : Opcode} (hop : bc.conversion = some (op, src, dst)) :
    dst.bits = 8 * dst.storeSize ∧ dst.storeSize ≤ bc.slotBytes ∧ bc.slotBytes ≤ 8 := by
  unfold Opcode.conversion at hop
  split at hop <;> cases hop <;> decide

/-- Where the result is narrower than the slot, the code has loaded the slot. -/
theorem inFrame_slot (hop : ins.bc.conversion = some (op, src, dst))
    (hsource : T.stack.InFrame ins.vmSource src.storeSize)
    (hdest : T.stack.InFrame ins.argSWord0 dst.storeSize) :
    T.stack.InFrame ins.argSWord0 ins.bc.slotBytes := by
  unfold Opcode.conversion at hop
  split at hop <;> cases hop <;> rename_i hbc <;>
    rw [BytecodeInstruction.vmSource, hbc] at hsource <;> rw [hbc] <;>
    first | exact hdest | exact hsource

/-- The result has no bits beyond its type. -/
theorem vmResult_fits {bc : Opcode} (hop : bc.conversion = some (op, src, dst)) (source : Word) :
    ((bc.vmResult source).setWidth (8 * dst.storeSize)).setWidth 64 = bc.vmResult source := by
  rw [← (Opcode.conversion_slot hop).1]
  unfold Opcode.conversion at hop
  split at hop <;> cases hop <;> simp [Ty.bits, Opcode.vmResult]

/-- **When the slot of the destination is the result of the VM**: iff it held no more bits than the
type of the result before. -/
theorem read_slot_iff (hop : ins.bc.conversion = some (op, src, dst)) (mem : Bytes.Mem) (a : ℕ)
    (source : Word) :
    Bytes.read (Bytes.write mem a dst.storeSize (ins.bc.vmResult source)) a ins.bc.slotBytes =
      ins.bc.vmResult source ↔ (Bytes.read mem a ins.bc.slotBytes).toNat < 2 ^ dst.bits := by
  obtain ⟨hbits, hle, hslot⟩ := Opcode.conversion_slot hop
  obtain ⟨n, hn⟩ := Nat.exists_eq_add_of_le hle
  rw [hn] at hslot ⊢
  rw [hbits, ← Bytes.read_write_low_iff (v := ins.bc.vmResult source) hslot, vmResult_fits hop]

/-- **What does what the VM does had a narrow destination**. -/
theorem CodeOf.narrow_of_convertsAsVm (hcode : CodeOf context T bytecode ins sp ps p q)
    (hop : ins.bc.conversion = some (op, src, dst)) (hact : Activates T env) {host : Host}
    {calls : List Request} {s : LocalState} (h : ConvertsAsVm T ins src ps q env host calls s) :
    NarrowDestination T ins src dst env s.mem := by
  obtain ⟨e, e', -, hout, rfl, hruns⟩ := hcode.ordinary (Opcode.conversion_ordinary hop)
  obtain ⟨haddress, haddress', hcast⟩ := conversion_code hop hout hruns
  obtain ⟨regs, mem, hgoes, -, hslot, -⟩ := h
  rw [hcast] at hgoes
  have hframe : T.stack.InFrame ins.vmSource src.storeSize ∧
      T.stack.InFrame ins.argSWord0 dst.storeSize := by
    by_contra hframe
    obtain ⟨p', hstuck⟩ := castCode_stuck op hact haddress haddress' hframe host
      ⟨s.regs, s.mem, calls⟩ e.nextReg
    exact CodeResult.noConfusion (hstuck.symm.trans hgoes)
  obtain ⟨regs', hgoes'⟩ := castCode_goes hop hact hframe.1 hframe.2 host
    ⟨s.regs, s.mem, calls⟩ e.nextReg
  have hmem := congrArg (·.world.mem) (CodeResult.goes.inj (hgoes'.symm.trans hgoes))
  rw [← show _ = mem from hmem, read_slot_iff hop] at hslot
  exact ⟨hframe.1, inFrame_slot hop hframe.1 hframe.2, hslot⟩

/-- **Integer conversions normalise their destination exactly if it is narrow already**: the code of
an integer conversion does what the VM does iff its operands are variables of their sizes and the
slot of its destination held no bits beyond the type of the result. -/
theorem conversions_normalised_iff (hcode : CodeOf context T bytecode ins sp ps p q)
    (hop : ins.bc.conversion = some (op, src, dst)) (hact : Activates T env) (host : Host)
    (calls : List Request) {s : LocalState} (hs : s.position = p) :
    ConvertsAsVm T ins src ps q env host calls s ↔ NarrowDestination T ins src dst env s.mem := by
  constructor
  · exact hcode.narrow_of_convertsAsVm hop hact
  · intro hnarrow
    have hreached := hcode.reached host (fun _ => True) calls hact.blocks hs fun _ _ => trivial
    obtain ⟨e, e', -, hout, rfl, hruns⟩ := hcode.ordinary (Opcode.conversion_ordinary hop)
    obtain ⟨-, -, hcast⟩ := conversion_code hop hout hruns
    have hle := (Opcode.conversion_slot hop).2.1
    obtain ⟨regs, hgoes⟩ := castCode_goes hop hact hnarrow.source (hnarrow.destination.mono hle)
      host ⟨s.regs, s.mem, calls⟩ e.nextReg
    rw [hcast] at hreached ⊢
    rw [hgoes] at hreached
    refine ⟨regs, _, hgoes, hreached, (read_slot_iff hop _ _ _).mpr hnarrow.narrow, ?_⟩
    intro a ha
    exact Bytes.write_outside (by omega)

end Normalisation

/-! ### A narrow variable and a wide one -/

/-- The first variable narrowed to a byte. -/
def narrowItob : BytecodeInstruction := ⟨[0x10000], ⟨.iTOb, 1, 0, by decide⟩, 0⟩

/-- A conversion to a byte. -/
def narrowBytecode : List BytecodeInstruction := [narrowItob, retAt 1]

/-- The first variable widened to 64 bits, into the fourth one. -/
def widenItoi64 : BytecodeInstruction := ⟨[0x40000, 1], ⟨.iTOi64, 2, 0, by decide⟩, 0⟩

/-- A conversion to 64 bits. -/
def widenBytecode : List BytecodeInstruction := [widenItoi64, retAt 2]

/-- The code of the first instruction of a function without parameters. -/
theorem exists_codeOf_first {ins : BytecodeInstruction} {rest : List BytecodeInstruction}
    (hwalked : Walked (ins :: rest)) (htranslates : ∃ T,
      translateBytecode loopContext (ins :: rest) = .ok T ∧ T.stack.parameters = []) : ∃ T ps p q,
    translateBytecode loopContext (ins :: rest) = .ok T ∧ T.stack.totalSpace = 8 ∧
      T.stack.parameters = [] ∧ CodeOf loopContext T (ins :: rest) ins 4 ps p q := by
  obtain ⟨T, hT, hparameters⟩ := htranslates
  obtain ⟨ps, p, q, hcode⟩ := exists_codeOf_at [] _ hwalked hT
  have htotal : T.stack.totalSpace = 8 := by
    rw [hcode.stack_eq]
    rfl
  exact ⟨T, ps, p, q, hT, htotal, hparameters, hcode⟩

/-- The code of the conversion of a variable to a byte. -/
theorem exists_codeOf_narrow : ∃ T ps p q,
    translateBytecode loopContext narrowBytecode = .ok T ∧ T.stack.totalSpace = 8 ∧
      T.stack.parameters = [] ∧ CodeOf loopContext T narrowBytecode narrowItob 4 ps p q :=
  exists_codeOf_first (by simp [narrowItob, retAt, WalkedFrom, BytecodeInstruction.next])
    (exists_ok_of_map (by decide +kernel))

/-- The code of the conversion of a variable to 64 bits. -/
theorem exists_codeOf_widen : ∃ T ps p q,
    translateBytecode loopContext widenBytecode = .ok T ∧ T.stack.totalSpace = 8 ∧
      T.stack.parameters = [] ∧ CodeOf loopContext T widenBytecode widenItoi64 4 ps p q :=
  exists_codeOf_first (by simp [widenItoi64, retAt, WalkedFrom, BytecodeInstruction.next])
    (exists_ok_of_map (by decide +kernel))

/-- The variable of the conversion to a byte is a local. -/
theorem narrow_inFrame {T : Translation} (htotal : T.stack.totalSpace = 8) :
    T.stack.InFrame 1 4 :=
  StackFrame.inFrame_storage (by decide) (by omega) (by decide)

/-- The conversion of 165 to a byte, and of -1 to 64 bits, in particular. -/
theorem conversions_normalised_iff_narrow :
    (∃ T ps p q env, Activates T env ∧ CodeOf loopContext T narrowBytecode narrowItob 4 ps p q ∧
      ConvertsAsVm T narrowItob .i32 ps q env (fun _ => (0, fun _ => 0)) []
        ⟨p, fun _ => 0, Bytes.write (fun _ => 0) (T.stack.byteAddress env.layout 1) 4 165, none⟩) ∧
    ∃ T ps p q env, Activates T env ∧ CodeOf loopContext T widenBytecode widenItoi64 4 ps p q ∧
      ConvertsAsVm T widenItoi64 .i32 ps q env (fun _ => (0, fun _ => 0)) []
        ⟨p, fun _ => 0, fun _ => 0xFF, none⟩ := by
  constructor
  · obtain ⟨T, ps, p, q, -, htotal, hparameters, hcode⟩ := exists_codeOf_narrow
    have hact := T.activates_env (by omega) [] (by rw [hparameters]; decide)
    refine ⟨T, ps, p, q, _, hact, hcode, (conversions_normalised_iff hcode rfl hact _ _ rfl).mpr
      ⟨narrow_inFrame htotal, narrow_inFrame htotal, ?_⟩⟩
    rw [show narrowItob.bc.slotBytes = 4 from rfl, show narrowItob.argSWord0 = 1 from rfl,
      Bytes.read_write_same]
    decide
  · obtain ⟨T, ps, p, q, -, htotal, hparameters, hcode⟩ := exists_codeOf_widen
    have hact := T.activates_env (by omega) [] (by rw [hparameters]; decide)
    have hwide : T.stack.InFrame 4 8 :=
      StackFrame.inFrame_storage (by decide) (by omega) (by decide)
    exact ⟨T, ps, p, q, _, hact, hcode, (conversions_normalised_iff hcode rfl hact _ _ rfl).mpr
      ⟨narrow_inFrame htotal, hwide, BitVec.isLt _⟩⟩

/-- **A conversion to a byte is not what the VM does** for a variable with other bytes. -/
theorem conversions_not_normalised : ∃ T ps p q env, Activates T env ∧
    translateBytecode loopContext narrowBytecode = .ok T ∧
    CodeOf loopContext T narrowBytecode narrowItob 4 ps p q ∧
      ¬ ConvertsAsVm T narrowItob .i32 ps q env (fun _ => (0, fun _ => 0)) []
        ⟨p, fun _ => 0, fun _ => 1, none⟩ := by
  obtain ⟨T, ps, p, q, hT, htotal, hparameters, hcode⟩ := exists_codeOf_narrow
  have hact := T.activates_env (by omega) [] (by rw [hparameters]; decide)
  refine ⟨T, ps, p, q, _, hact, hT, hcode, fun hconverts => ?_⟩
  have hnarrow := (hcode.narrow_of_convertsAsVm rfl hact hconverts).narrow
  have hone : ∀ a, Bytes.read (fun _ => 1) a 4 = 0x01010101 := fun a => by simp [Bytes.read]
  rw [show narrowItob.bc.slotBytes = 4 from rfl, hone] at hnarrow
  exact absurd hnarrow (by decide)

end Asllvm
