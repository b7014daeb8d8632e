import Asllvm.NullChecks

/-!
# Buffers of Initialization Lists

An initialization list is compiled to `AllocMem`, which puts a fresh buffer into a variable, and to
writes into that buffer: of the number of elements by `SetListSize`, and of the elements through the
addresses that `PshListElmnt` pushes. The VM clears the buffer first; here it is left as it comes.

* `ListWrite`, `vmBuffer` — what is written, and the buffer that the VM hands to the list factory.
* `ListStep`, `Fills` — the code of the instructions above, with anything in between that leaves the
  list alone.

## Main results

* `writeList_eq_vmBuffer_iff` — writes make a buffer that of the VM iff the bytes that none of them
  covers were zero.
* `ListStep.holds` — each step writes what the VM writes.
* `list_buffers_equal_iff` — the buffer is that of the VM iff the bytes of the fresh memory that
  nothing is written to were zero.
-/

open StateExcept

namespace Asllvm

/-! ### What is written -/

/-- Data written into a buffer. -/
structure ListWrite where
  offset : ℕ
  data : List (BitVec 8)
deriving DecidableEq, Repr

/-- The byte at an index is written. -/
def ListWrite.Covers (w : ListWrite) (i : ℕ) : Prop := w.offset ≤ i ∧ i < w.offset + w.data.length

/-- The write is within a buffer of `n` bytes. -/
def ListWrite.Within (w : ListWrite) (n : ℕ) : Prop := w.offset + w.data.length ≤ n

/-- A buffer after some writes. -/
def writeList (buffer : Bytes.Mem) (writes : List ListWrite) : Bytes.Mem :=
  writes.foldl (fun buffer w => Bytes.overwrite buffer w.offset w.data) buffer

/-- The buffer after some writes **in the VM**, where `AllocMem` has cleared it. -/
def vmBuffer (writes : List ListWrite) : Bytes.Mem := writeList (fun _ => 0) writes

section Writes

variable {buffer buffer' : Bytes.Mem} {writes writes' : List ListWrite} {i n : ℕ}

theorem writeList_cons (w : ListWrite) : writeList buffer (w :: writes) =
    writeList (Bytes.overwrite buffer w.offset w.data) writes := rfl

theorem writeList_append :
    writeList buffer (writes ++ writes') = writeList (writeList buffer writes) writes' :=
  List.foldl_append

theorem writeList_congr (h : buffer i = buffer' i) :
    writeList buffer writes i = writeList buffer' writes i := by
  induction writes generalizing buffer buffer' with
  | nil => exact h
  | cons w writes ih => exact ih (Bytes.overwrite_congr h)

/-- A byte that no write covers is left alone. -/
theorem writeList_of_not_covers (h : ∀ w ∈ writes, ¬ w.Covers i) :
    writeList buffer writes i = buffer i := by
  induction writes generalizing buffer with
  | nil => rfl
  | cons w writes ih =>
      have hw := h w List.mem_cons_self
      rw [ListWrite.Covers] at hw
      rw [writeList_cons, ih fun w' hw' => h w' (List.mem_cons_of_mem _ hw')]
      exact Bytes.overwrite_outside (by omega)

/-- A byte that some write covers does not depend on what was there. -/
theorem writeList_of_covers {w : ListWrite} (hw : w ∈ writes) (h : w.Covers i) :
    writeList buffer writes i = writeList buffer' writes i := by
  induction writes generalizing buffer buffer' with
  | nil => exact absurd hw List.not_mem_nil
  | cons first writes ih =>
      rcases List.mem_cons.mp hw with rfl | hw
      · rw [writeList_cons, writeList_cons]
        exact writeList_congr (Bytes.overwrite_inside h)
      · exact ih hw

/-- **Writes make a buffer that of the VM** iff the bytes that none of them covers were zero. -/
theorem writeList_eq_vmBuffer_iff : (∀ i < n, writeList buffer writes i = vmBuffer writes i) ↔
    ∀ i < n, (∀ w ∈ writes, ¬ w.Covers i) → buffer i = 0 := by
  constructor
  · intro h i hi huncovered
    have hbyte := h i hi
    rwa [vmBuffer, writeList_of_not_covers huncovered, writeList_of_not_covers huncovered] at hbyte
  · intro h i hi
    by_cases hcovered : ∃ w ∈ writes, w.Covers i
    · obtain ⟨w, hw, hcovers⟩ := hcovered
      exact writeList_of_covers hw hcovers
    · have huncovered : ∀ w ∈ writes, ¬ w.Covers i := fun w hw hcovers => hcovered ⟨w, hw, hcovers⟩
      rw [vmBuffer, writeList_of_not_covers huncovered, writeList_of_not_covers huncovered]
      exact h i hi huncovered

end Writes

/-! ### The code -/

/-- The code of `AllocMem`. -/
def allocMemCode (stack : StackFrame) (ins : BytecodeInstruction) (r : ℕ) : List Piece := [
  .instr (.call (some r) (.runtime .alloc) [constantInt .iptr ins.argDWord.toNat]),
  .instr (.store .pvoid (.reg r) (stack.slotAddress ins.argSWord0))]

/-- The address of an element: the code that `SetListSize` and `PshListElmnt` share. -/
def elementCode (stack : StackFrame) (ins : BytecodeInstruction) (r : ℕ) : List Piece := [
  .instr (.load r .pvoid (stack.slotAddress ins.argSWord0)),
  .instr (.gep (r + 1) (.reg r) (constantInt .iptr ins.argDWord.toNat).op .iptr 1)]

section Code

variable {stack : StackFrame} {ins : BytecodeInstruction} {s s' : EmitState}

theorem allocMem_code (hbc : ins.bc = .AllocMem) (hs : s.out = [])
    (h : Runs (translateOrdinary stack ins) s () s') : s'.out = allocMemCode stack ins s.nextReg := by
  rw [translateOrdinary, hbc] at h
  simp at h
  obtain ⟨-, rfl⟩ := h
  rw [allocMemCode, EmitState.extend_out, hs]
  rfl

theorem setListSize_code (hbc : ins.bc = .SetListSize) (hs : s.out = [])
    (h : Runs (translateOrdinary stack ins) s () s') : s'.out = elementCode stack ins s.nextReg ++
      [.instr (.store .i32 (constantInt .i32 (ins.argDWord 1).toInt).op (.reg (s.nextReg + 1)))] := by
  rw [translateOrdinary, hbc] at h
  simp at h
  obtain ⟨-, rfl⟩ := h
  rw [elementCode, EmitState.extend_out, hs]
  rfl

theorem pshListElmnt_code (hbc : ins.bc = .PshListElmnt) (hs : s.out = [])
    (h : Runs (translateOrdinary stack ins) s () s') : s'.out = elementCode stack ins s.nextReg ++
      [.instr (.store .pvoid (.reg (s.nextReg + 1)) (stack.slotAddress (s.stackPointer + 2)))] := by
  rw [translateOrdinary, hbc] at h
  simp at h
  obtain ⟨-, -, rfl⟩ := h
  rw [elementCode, EmitState.extend_out, EmitState.move_out, hs]
  rfl

end Code

/-! ### The list -/

/-- **Fresh memory**: `n` bytes inside the address space, apart from the frame. -/
structure Fresh (layout : FrameLayout) (b : Word) (n : ℕ) : Prop where
  bounded : b.toNat + n < 2 ^ 64
  apart : ∀ slot, layout.address slot + layout.size slot ≤ b.toNat ∨ b.toNat + n ≤ layout.address slot

/-- The variable holds the address of a buffer with these bytes. -/
structure HoldsList (T : Translation) (env : Env) (v : ℤ) (n : ℕ) (b : Word) (buffer mem : Bytes.Mem) :
    Prop where
  pointer : Bytes.read mem (T.stack.byteAddress env.layout v) 8 = b
  bytes : ∀ i < n, mem (b.toNat + i) = buffer i

/-- The variable and its buffer are as they were. -/
structure SameList (T : Translation) (env : Env) (v : ℤ) (n : ℕ) (mem mem' : Bytes.Mem) : Prop where
  pointer : ∀ i < 8, mem' (T.stack.byteAddress env.layout v + i) =
    mem (T.stack.byteAddress env.layout v + i)
  bytes : ∀ i < n, mem' ((Bytes.read mem (T.stack.byteAddress env.layout v) 8).toNat + i) =
    mem ((Bytes.read mem (T.stack.byteAddress env.layout v) 8).toNat + i)

/-- **A step of the initialization** of the list in a variable, and what it is to write: the code of
`SetListSize`; the code of `PshListElmnt`, and data written through the address it has pushed; or
anything else that leaves the list alone. -/
inductive ListStep (context : FunctionContext) (T : Translation) (bytecode : List BytecodeInstruction)
    (env : Env) (host : Host) (v : ℤ) (n : ℕ) : List ListWrite → Progress → Progress → Prop
  | setListSize {ins : BytecodeInstruction} {sp : ℤ} {ps : List Piece} {p q : Position}
      {s s' : Progress} :
      CodeOf context T bytecode ins sp ps p q → ins.bc = .SetListSize → ins.argSWord0 = v →
      runCode env host ps s = .goes s' →
      ListStep context T bytecode env host v n
        [⟨ins.argDWord.toNat, Bytes.bytesOf ((ins.argDWord 1).setWidth 64) 4⟩] s s'
  | element {ins : BytecodeInstruction} {sp : ℤ} {ps : List Piece} {p q : Position}
      {s s' s'' : Progress} {data : List (BitVec 8)} :
      CodeOf context T bytecode ins sp ps p q → ins.bc = .PshListElmnt → ins.argSWord0 = v →
      T.stack.InFrame (sp + 2) 8 → v ≤ sp → runCode env host ps s = .goes s' →
      SameList T env v n (Bytes.overwrite s'.world.mem
        (Bytes.read s'.world.mem (T.stack.byteAddress env.layout (sp + 2)) 8).toNat data)
        s''.world.mem →
      ListStep context T bytecode env host v n [⟨ins.argDWord.toNat, data⟩] s s''
  | other {s s' : Progress} :
      SameList T env v n s.world.mem s'.world.mem →
      ListStep context T bytecode env host v n [] s s'

/-- **The initialization** of a list, as far as it has come, and all that it was to write. -/
inductive Fills (context : FunctionContext) (T : Translation) (bytecode : List BytecodeInstruction)
    (env : Env) (host : Host) (v : ℤ) (n : ℕ) : List ListWrite → Progress → Progress → Prop
  | refl (s : Progress) : Fills context T bytecode env host v n [] s s
  | tail {writes writes' : List ListWrite} {s s' s'' : Progress} :
      Fills context T bytecode env host v n writes s s' →
      ListStep context T bytecode env host v n writes' s' s'' →
      Fills context T bytecode env host v n (writes ++ writes') s s''

section List

variable {context : FunctionContext} {bytecode : List BytecodeInstruction}
  {ins : BytecodeInstruction} {T : Translation} {env : Env} {host : Host} {sp v : ℤ}
  {ps : List Piece} {p q : Position} {n : ℕ} {b : Word} {buffer mem mem' : Bytes.Mem}
  {writes : List ListWrite} {s s' : Progress}

/-- Fresh memory is apart from the variables of the frame. -/
theorem Fresh.apart_variable {o : ℤ} (h : Fresh env.layout b n) (hact : Activates T env)
    (hframe : T.stack.InFrame o 8) : T.stack.byteAddress env.layout o + 8 ≤ b.toNat ∨
      b.toNat + n ≤ T.stack.byteAddress env.layout o := by
  have hwithin := hframe.within hact
  have hapart := h.apart (StackFrame.slot o)
  omega

/-- Two variables of eight bytes are apart, if their offsets are. -/
theorem StackFrame.InFrame.apart {o : ℤ} (hact : Activates T env) (hv : T.stack.InFrame v 8)
    (ho : T.stack.InFrame o 8) (h : v + 2 ≤ o) :
    T.stack.byteAddress env.layout o + 8 ≤ T.stack.byteAddress env.layout v ∨
      T.stack.byteAddress env.layout v + 8 ≤ T.stack.byteAddress env.layout o := by
  have hwithin := hv.within hact
  have hwithin' := ho.within hact
  by_cases hstorage : 0 < v
  · rw [StackFrame.InFrame, if_neg (by omega)] at ho
    rw [StackFrame.byteAddress, StackFrame.byteAddress, if_neg (by omega), if_neg (by omega)]
    omega
  · have hne : StackFrame.slot o ≠ StackFrame.slot v := by
      rw [StackFrame.slot, StackFrame.slot, if_pos (Int.not_lt.mp hstorage)]
      split
      · intro heq
        have hoffset := AllocaId.parameter.inj heq
        omega
      · exact AllocaId.noConfusion
    have hdisjoint := env.layout.disjoint _ _ hne
    omega

theorem HoldsList.congr (h : HoldsList T env v n b buffer mem) (hsame : SameList T env v n mem mem') :
    HoldsList T env v n b buffer mem' where
  pointer := (Bytes.read_congr hsame.pointer).trans h.pointer
  bytes i hi := by
    have hbyte := hsame.bytes i hi
    rw [h.pointer] at hbyte
    exact hbyte.trans (h.bytes i hi)

/-- Writing a variable other than that of the list. -/
theorem HoldsList.write_variable {o : ℤ} {w : Word} (h : HoldsList T env v n b buffer mem)
    (hact : Activates T env) (hfresh : Fresh env.layout b n) (hv : T.stack.InFrame v 8)
    (ho : T.stack.InFrame o 8) (hvo : v + 2 ≤ o) : HoldsList T env v n b buffer
      (Bytes.write mem (T.stack.byteAddress env.layout o) 8 w) where
  pointer := by
    have hapart := hv.apart hact ho hvo
    rw [Bytes.read_write_disjoint (by omega), h.pointer]
  bytes i hi := by
    have hapart := hfresh.apart_variable hact ho
    rw [Bytes.write_outside (by omega), h.bytes i hi]

/-- **Writing the buffer.** -/
theorem HoldsList.overwrite {w : ListWrite} (h : HoldsList T env v n b buffer mem)
    (hact : Activates T env) (hfresh : Fresh env.layout b n) (hv : T.stack.InFrame v 8)
    (hw : w.Within n) : HoldsList T env v n b (Bytes.overwrite buffer w.offset w.data)
      (Bytes.overwrite mem (b.toNat + w.offset) w.data) where
  pointer := by
    have hapart := hfresh.apart_variable hact hv
    rw [ListWrite.Within] at hw
    have hread : Bytes.read (Bytes.overwrite mem (b.toNat + w.offset) w.data)
        (T.stack.byteAddress env.layout v) 8 =
        Bytes.read mem (T.stack.byteAddress env.layout v) 8 :=
      Bytes.read_congr fun i hi => Bytes.overwrite_outside (by omega)
    rw [hread, h.pointer]
  bytes i hi := by
    rw [Bytes.overwrite_add]
    exact Bytes.overwrite_congr (h.bytes i hi)

/-- The address of an element lies in the buffer. -/
theorem Fresh.toNat_add {offset : BitVec 32} (h : Fresh env.layout b n) (hle : offset.toNat ≤ n) :
    (b + BitVec.ofNat 64 offset.toNat).toNat = b.toNat + offset.toNat := by
  have hbounded := h.bounded
  rw [BitVec.toNat_add, BitVec.toNat_ofNat]
  omega

/-- **The address of an element** is computed from the variable. -/
theorem elementCode_goes (hact : Activates T env) (hframe : T.stack.InFrame ins.argSWord0 8)
    (host : Host) (s : Progress) (r : ℕ) (qs : List Piece) : ∃ regs,
      regs (r + 1) = Bytes.read s.world.mem (T.stack.byteAddress env.layout ins.argSWord0) 8 +
        BitVec.ofNat 64 ins.argDWord.toNat ∧
      runCode env host (elementCode T.stack ins r ++ qs) s = runCode env host qs ⟨regs, s.world⟩ := by
  obtain ⟨regs, mem, calls⟩ := s
  have hload := exec_load_pointer .i8 hact hframe regs mem r
  refine ⟨_, ?_, (runCode_step hload).trans (runCode_step rfl)⟩
  have hindex : (constantInt .iptr ins.argDWord.toNat).op.eval env (Function.update regs r
      (Bytes.read mem (T.stack.byteAddress env.layout ins.argSWord0) 8)) =
        BitVec.ofNat 64 ins.argDWord.toNat := by
    rw [constantInt, Operand.eval, Ty.bits, BitVec.setWidth_eq, BitVec.setWidth_eq,
      BitVec.ofInt_natCast]
  have hone : BitVec.ofNat 64 1 = 1#64 := rfl
  rw [Function.update_self, hindex, Operand.eval, Function.update_self, Ty.bits, BitVec.setWidth_eq,
    BitVec.signExtend_eq, hone, BitVec.one_mul]

/-- `SetListSize` writes the number of elements. -/
theorem setListSize_goes (hbc : ins.bc = .SetListSize)
    (hcode : CodeOf context T bytecode ins sp ps p q) (hact : Activates T env)
    (hframe : T.stack.InFrame ins.argSWord0 8) (host : Host) (s : Progress) : ∃ s',
      runCode env host ps s = .goes s' ∧ s'.world.mem = Bytes.write s.world.mem
        (Bytes.read s.world.mem (T.stack.byteAddress env.layout ins.argSWord0) 8 +
          BitVec.ofNat 64 ins.argDWord.toNat).toNat 4 ((ins.argDWord 1).setWidth 64) := by
  obtain ⟨e, e', -, hout, rfl, hruns⟩ := hcode.ordinary (by rw [hbc]; rfl)
  obtain ⟨regs, haddress, hgoes⟩ := elementCode_goes hact hframe host s e.nextReg
    [.instr (.store .i32 (constantInt .i32 (ins.argDWord 1).toInt).op (.reg (e.nextReg + 1)))]
  have hstore : (Instr.store .i32 (constantInt .i32 (ins.argDWord 1).toInt).op
      (.reg (e.nextReg + 1))).exec env regs s.world.mem = some (regs, _) :=
    exec_store_reg .i32 regs s.world.mem (e.nextReg + 1) _
  rw [setListSize_code hbc hout hruns, hgoes]
  refine ⟨_, runCode_step hstore, ?_⟩
  rw [haddress]
  refine Bytes.write_congr ?_
  rw [constantInt, Operand.eval, Ty.truncate_setWidth, Ty.bits, Bytes.setWidth_ofInt (by decide),
    BitVec.ofInt_toInt]

/-- `PshListElmnt` pushes the address of an element. -/
theorem pshListElmnt_goes (hbc : ins.bc = .PshListElmnt)
    (hcode : CodeOf context T bytecode ins sp ps p q) (hact : Activates T env)
    (hframe : T.stack.InFrame ins.argSWord0 8) (hslot : T.stack.InFrame (sp + 2) 8) (host : Host)
    (s : Progress) : ∃ s', runCode env host ps s = .goes s' ∧ s'.world.mem =
      Bytes.write s.world.mem (T.stack.byteAddress env.layout (sp + 2)) 8
        (Bytes.read s.world.mem (T.stack.byteAddress env.layout ins.argSWord0) 8 +
          BitVec.ofNat 64 ins.argDWord.toNat) := by
  obtain ⟨e, e', rfl, hout, rfl, hruns⟩ := hcode.ordinary (by rw [hbc]; rfl)
  obtain ⟨regs, haddress, hgoes⟩ := elementCode_goes hact hframe host s e.nextReg
    [.instr (.store .pvoid (.reg (e.nextReg + 1)) (T.stack.slotAddress (e.stackPointer + 2)))]
  have hstore := StackFrame.InFrame.exec_store .pvoid hact hslot regs s.world.mem
    (.reg (e.nextReg + 1))
  rw [pshListElmnt_code hbc hout hruns, hgoes]
  refine ⟨_, runCode_step hstore, ?_⟩
  rw [Operand.eval, haddress, Ty.truncate_ptr]
  rfl

/-- **Each step writes what the VM writes.** -/
theorem ListStep.holds (h : ListStep context T bytecode env host v n writes s s')
    (hact : Activates T env) (hfresh : Fresh env.layout b n) (hv : T.stack.InFrame v 8)
    (hwithin : ∀ w ∈ writes, w.Within n) (hs : HoldsList T env v n b buffer s.world.mem) :
    HoldsList T env v n b (writeList buffer writes) s'.world.mem := by
  cases h with
  | @setListSize ins sp ps p q _ _ hcode hbc hvariable hgoes =>
      subst hvariable
      have hw := hwithin _ List.mem_cons_self
      have hle : ins.argDWord.toNat ≤ n := (Nat.le_add_right _ _).trans hw
      obtain ⟨s'', hgoes', hmem⟩ := setListSize_goes hbc hcode hact hv host s
      obtain rfl := CodeResult.goes.inj (hgoes.symm.trans hgoes')
      rw [hmem, hs.pointer, hfresh.toNat_add hle, ← Bytes.overwrite_bytesOf]
      exact hs.overwrite hact hfresh hv hw
  | @element ins sp ps p q _ s₁ _ data hcode hbc hvariable hslot hle hgoes hsame =>
      subst hvariable
      have hw := hwithin _ List.mem_cons_self
      have hoffset : ins.argDWord.toNat ≤ n := (Nat.le_add_right _ _).trans hw
      obtain ⟨s'', hgoes', hmem⟩ := pshListElmnt_goes hbc hcode hact hv hslot host s
      obtain rfl := CodeResult.goes.inj (hgoes.symm.trans hgoes')
      refine HoldsList.congr ?_ hsame
      -- the address that was pushed is that of the element
      rw [hmem, Bytes.read_write_same, hs.pointer, BitVec.setWidth_eq, BitVec.setWidth_eq,
        hfresh.toNat_add hoffset]
      exact (hs.write_variable hact hfresh hv hslot (by omega)).overwrite hact hfresh hv hw
  | other hsame => exact hs.congr hsame

/-- **A whole initialization** writes what the VM writes. -/
theorem Fills.holds (h : Fills context T bytecode env host v n writes s s') (hact : Activates T env)
    (hfresh : Fresh env.layout b n) (hv : T.stack.InFrame v 8) (hwithin : ∀ w ∈ writes, w.Within n)
    (hs : HoldsList T env v n b buffer s.world.mem) :
    HoldsList T env v n b (writeList buffer writes) s'.world.mem := by
  induction h with
  | refl => exact hs
  | tail _ hstep ih =>
      rw [writeList_append]
      exact hstep.holds hact hfresh hv (fun w hw => hwithin w (List.mem_append_right _ hw))
        (ih (fun w hw => hwithin w (List.mem_append_left _ hw)) hs)

/-- What the allocator answers to `AllocMem`: the address of the buffer, and the memory. -/
def allocated (host : Host) (ins : BytecodeInstruction) (s : Progress) : Word × Bytes.Mem :=
  host (⟨.runtime .alloc, [BitVec.ofNat 64 ins.argDWord.toNat], s.world.mem⟩ :: s.world.calls)

/-- `AllocMem` puts the address of the buffer into the variable, and leaves the buffer as it is. -/
theorem allocMem_goes (hbc : ins.bc = .AllocMem) (hcode : CodeOf context T bytecode ins sp ps p q)
    (hact : Activates T env) (hv : T.stack.InFrame ins.argSWord0 8) (host : Host) (s : Progress)
    (hfresh : Fresh env.layout (allocated host ins s).1 n) : ∃ s', runCode env host ps s = .goes s' ∧
      HoldsList T env ins.argSWord0 n (allocated host ins s).1
        (fun i => (allocated host ins s).2 ((allocated host ins s).1.toNat + i)) s'.world.mem := by
  obtain ⟨e, e', -, hout, rfl, hruns⟩ := hcode.ordinary (by rw [hbc]; rfl)
  rw [allocMem_code hbc hout hruns, allocMemCode, runCode]
  have hargs : [constantInt .iptr ins.argDWord.toNat].map (·.eval env s.regs) =
      [BitVec.ofNat 64 ins.argDWord.toNat] := by
    rw [List.map_singleton, Value.eval, constantInt, Operand.eval, Ty.truncate_setWidth, Ty.bits,
      BitVec.setWidth_eq, BitVec.setWidth_eq, BitVec.ofInt_natCast]
  rw [hargs]
  have hcall : s.call host (some e.nextReg) (.runtime .alloc) [BitVec.ofNat 64 ins.argDWord.toNat] =
      ⟨Function.update s.regs e.nextReg (allocated host ins s).1, (allocated host ins s).2,
        ⟨.runtime .alloc, [BitVec.ofNat 64 ins.argDWord.toNat], s.world.mem⟩ :: s.world.calls⟩ := rfl
  rw [hcall]
  have hstore := StackFrame.InFrame.exec_store .pvoid hact hv
    (Function.update s.regs e.nextReg (allocated host ins s).1) (allocated host ins s).2
    (.reg e.nextReg)
  rw [Operand.eval, Function.update_self, Ty.truncate_ptr, Ty.storeSize] at hstore
  refine ⟨_, runCode_step hstore, ?_, fun i hi => ?_⟩
  · exact Bytes.read_write_same.trans (by rw [BitVec.setWidth_eq, BitVec.setWidth_eq])
  · have hapart := hfresh.apart_variable hact hv
    exact Bytes.write_outside (by omega)

/-- **The buffer handed to the list factory is that of the VM exactly if the allocator cleared what
nobody writes**: after the code of `AllocMem` and any initialization within the buffer, the variable
holds the address of the buffer, and its bytes are those of the VM iff every byte of the fresh memory
that no write covers was zero. -/
theorem list_buffers_equal_iff (hcode : CodeOf context T bytecode ins sp ps p q)
    (hbc : ins.bc = .AllocMem) (hact : Activates T env) (hv : T.stack.InFrame ins.argSWord0 8)
    (host : Host) (s : Progress)
    (hfresh : Fresh env.layout (allocated host ins s).1 ins.argDWord.toNat) :
    ∃ s₁, runCode env host ps s = .goes s₁ ∧ ∀ writes s₂,
      Fills context T bytecode env host ins.argSWord0 ins.argDWord.toNat writes s₁ s₂ →
      (∀ w ∈ writes, w.Within ins.argDWord.toNat) →
        Bytes.read s₂.world.mem (T.stack.byteAddress env.layout ins.argSWord0) 8 =
          (allocated host ins s).1 ∧
        ((∀ i < ins.argDWord.toNat,
            s₂.world.mem ((allocated host ins s).1.toNat + i) = vmBuffer writes i) ↔
          ∀ i < ins.argDWord.toNat, (∀ w ∈ writes, ¬ w.Covers i) →
            (allocated host ins s).2 ((allocated host ins s).1.toNat + i) = 0) := by
  obtain ⟨s₁, hgoes, hholds⟩ := allocMem_goes hbc hcode hact hv host s hfresh
  refine ⟨s₁, hgoes, fun writes s₂ hfills hwithin => ?_⟩
  have hfilled := hfills.holds hact hfresh hv hwithin hholds
  refine ⟨hfilled.pointer, ?_⟩
  rw [← writeList_eq_vmBuffer_iff]
  exact forall₂_congr fun i hi => by rw [hfilled.bytes i hi]

end List

/-! ### A list that is filled, and one with an element left out -/

/-- A buffer of eight bytes for the first pointer variable. -/
def listAllocMem : BytecodeInstruction := ⟨[0x20000, 8], ⟨.AllocMem, 2, 0, by decide⟩, 0⟩

/-- Its number of elements. -/
def listSetListSize : BytecodeInstruction := ⟨[0x20000, 0, 1], ⟨.SetListSize, 3, 0, by decide⟩, 2⟩

/-- The address of its element is pushed. -/
def listPshListElmnt : BytecodeInstruction := ⟨[0x20000, 4], ⟨.PshListElmnt, 2, 2, by decide⟩, 5⟩

/-- The initialization of a list of one element. -/
def fillBytecode : List BytecodeInstruction := [
  listAllocMem,
  listSetListSize,
  listPshListElmnt,
  popPtrAt 7,
  retAt 8]

/-- The initialization of a list of one element, which is left out. -/
def listBytecode : List BytecodeInstruction := [listAllocMem, listSetListSize, retAt 5]

theorem translateBytecode_fill : ∃ T, translateBytecode loopContext fillBytecode = .ok T ∧
    T.stack.parameters = [] :=
  exists_ok_of_map (by decide +kernel)

theorem translateBytecode_list : ∃ T, translateBytecode loopContext listBytecode = .ok T ∧
    T.stack.parameters = [] :=
  exists_ok_of_map (by decide +kernel)

section Example

variable {bytecode rest : List BytecodeInstruction} {T : Translation}

/-- Memory far above a frame that begins at its bottom. -/
theorem list_fresh (hle : T.stack.totalSpace ≤ 2 ^ 32) (hparameters : T.stack.parameters = []) :
    Fresh (T.env hle []).layout 0x10000000000 8 := by
  refine ⟨by decide, fun slot => .inl ?_⟩
  have hb : (0x10000000000 : Word).toNat = 2 ^ 40 := rfl
  rw [hb]
  cases slot with
  | parameter o =>
      change (if -64 < o ∧ o ≤ 0 then _ else _) + (if -64 < o ∧ o ≤ 0 then _ else _) ≤ _
      rw [hparameters]
      split
      · change _ + 0 ≤ _
        omega
      · omega
  | storage =>
      change 1024 + 4 * T.stack.totalSpace.toNat ≤ _
      omega
  | valueRegister =>
      change 16 + 8 ≤ _
      omega
  | objectRegister =>
      change 32 + 8 ≤ _
      omega

/-- The code of the start of an initialization. -/
theorem exists_codeOf_list (hbytecode : bytecode = listAllocMem :: listSetListSize :: rest)
    (hwalked : Walked bytecode) (hT : translateBytecode loopContext bytecode = .ok T)
    (hparameters : T.stack.parameters = []) : ∃ env ps p q sp' ps' p' q', Activates T env ∧
      T.stack.totalSpace = 8 ∧ T.stack.InFrame 2 8 ∧ Fresh env.layout 0x10000000000 8 ∧
      CodeOf loopContext T bytecode listAllocMem 4 ps p q ∧
      CodeOf loopContext T bytecode listSetListSize sp' ps' p' q' := by
  subst hbytecode
  obtain ⟨ps, p, q, hcode⟩ := exists_codeOf_at [] _ hwalked hT
  obtain ⟨sp', ps', p', q', hcode'⟩ :=
    exists_codeOf hwalked hT (List.mem_cons_of_mem _ List.mem_cons_self)
  have htotal : T.stack.totalSpace = 8 := by
    rw [hcode.stack_eq]
    rfl
  have hle : T.stack.totalSpace ≤ 2 ^ 32 := by omega
  have hact := T.activates_env hle [] (by rw [hparameters]; exact fun _ h => absurd h List.not_mem_nil)
  have hframe : T.stack.InFrame 2 8 := StackFrame.inFrame_storage (by decide) (by omega) (by decide)
  exact ⟨_, ps, p, q, sp', ps', p', q', hact, htotal, hframe, list_fresh hle hparameters, hcode, hcode'⟩

end Example

theorem fillBytecode_walked : Walked fillBytecode := by
  simp [fillBytecode, listAllocMem, listSetListSize, listPshListElmnt, popPtrAt, retAt, WalkedFrom,
    BytecodeInstruction.next]

theorem listBytecode_walked : Walked listBytecode := by
  simp [listBytecode, listAllocMem, listSetListSize, retAt, WalkedFrom, BytecodeInstruction.next]

/-- A list of one element, 345, in memory that was not zero: all of its bytes are written. -/
theorem list_buffers_equal_iff_filled : ∃ T env ps p q s₁ s₂,
    CodeOf loopContext T fillBytecode listAllocMem 4 ps p q ∧
    runCode env (fun _ => (0x10000000000, fun _ => 1)) ps ⟨fun _ => 0, fun _ => 0, []⟩ = .goes s₁ ∧
    Fills loopContext T fillBytecode env (fun _ => (0x10000000000, fun _ => 1)) 2 8
      [⟨0, Bytes.bytesOf 1 4⟩, ⟨4, Bytes.bytesOf 345 4⟩] s₁ s₂ ∧
    ∀ i < 8, s₂.world.mem (0x10000000000 + i) =
      vmBuffer [⟨0, Bytes.bytesOf 1 4⟩, ⟨4, Bytes.bytesOf 345 4⟩] i := by
  obtain ⟨T, hT, hparameters⟩ := translateBytecode_fill
  obtain ⟨env, ps, p, q, sp', ps', p', q', hact, htotal, hframe, hfresh, hcode, hcode'⟩ :=
    exists_codeOf_list rfl fillBytecode_walked hT hparameters
  have hwalked : Walked ([listAllocMem, listSetListSize] ++ listPshListElmnt :: [
    popPtrAt 7, retAt 8]) := fillBytecode_walked
  obtain ⟨ps'', p'', q'', hpush⟩ := exists_codeOf_at _ _ hwalked hT
  let host : Host := fun _ => (0x10000000000, fun _ => 1)
  obtain ⟨s₁, hgoes, hbuffer⟩ := list_buffers_equal_iff hcode rfl hact hframe host
    ⟨fun _ => 0, fun _ => 0, []⟩ hfresh
  obtain ⟨s', hsize, -⟩ := setListSize_goes rfl hcode' hact hframe host s₁
  have hslot : T.stack.InFrame (4 + 2) 8 :=
    StackFrame.inFrame_storage (by decide) (by omega) (by decide)
  obtain ⟨s'', hpushed, -⟩ := pshListElmnt_goes rfl hpush hact hframe hslot host s'
  -- the element is written through the address that was pushed
  let s₂ : Progress := ⟨s''.regs, Bytes.overwrite s''.world.mem (Bytes.read s''.world.mem
    (T.stack.byteAddress env.layout (4 + 2)) 8).toNat (Bytes.bytesOf 345 4), s''.world.calls⟩
  have helement : ListStep loopContext T fillBytecode env host 2 8 [⟨4, Bytes.bytesOf 345 4⟩] s' s₂ :=
    .element hpush rfl rfl hslot (by decide) hpushed ⟨fun _ _ => rfl, fun _ _ => rfl⟩
  have hfills : Fills loopContext T fillBytecode env host 2 8
      ([] ++ [⟨0, Bytes.bytesOf 1 4⟩] ++ [⟨4, Bytes.bytesOf 345 4⟩]) s₁ s₂ :=
    .tail (.tail (.refl _) (.setListSize hcode' rfl rfl hsize)) helement
  refine ⟨T, env, ps, p, q, s₁, s₂, hcode, hgoes, hfills, (hbuffer _ s₂ hfills ?_).2.mpr ?_⟩
  · intro w hw
    rcases List.mem_cons.mp hw with rfl | hw
    · rw [ListWrite.Within, Bytes.length_bytesOf]
      decide
    · rw [List.mem_singleton.mp hw, ListWrite.Within, Bytes.length_bytesOf]
      decide
  · intro i hi huncovered
    have hcovered : (⟨0, Bytes.bytesOf 1 4⟩ : ListWrite).Covers i ∨
        (⟨4, Bytes.bytesOf 345 4⟩ : ListWrite).Covers i := by
      simp only [ListWrite.Covers, Bytes.length_bytesOf]
      have hlt : i < 8 := hi
      omega
    rcases hcovered with h | h
    · exact absurd h (huncovered _ List.mem_cons_self)
    · exact absurd h (huncovered _ (List.mem_cons_of_mem _ List.mem_cons_self))

/-- **A list with an element left out** in memory that was not zero: the VM hands over a zero. -/
theorem list_buffers_not_equal : ∃ T env ps p q s₁ writes s₂,
    translateBytecode loopContext listBytecode = .ok T ∧ Activates T env ∧
    CodeOf loopContext T listBytecode listAllocMem 4 ps p q ∧
    runCode env (fun _ => (0x10000000000, fun _ => 1)) ps ⟨fun _ => 0, fun _ => 0, []⟩ = .goes s₁ ∧
    Fills loopContext T listBytecode env (fun _ => (0x10000000000, fun _ => 1)) 2 8 writes s₁ s₂ ∧
    (∀ w ∈ writes, w.Within 8) ∧
      ¬ ∀ i < 8, s₂.world.mem (0x10000000000 + i) = vmBuffer writes i := by
  obtain ⟨T, hT, hparameters⟩ := translateBytecode_list
  obtain ⟨env, ps, p, q, sp', ps', p', q', hact, -, hframe, hfresh, hcode, hcode'⟩ :=
    exists_codeOf_list rfl listBytecode_walked hT hparameters
  let host : Host := fun _ => (0x10000000000, fun _ => 1)
  obtain ⟨s₁, hgoes, hholds⟩ := allocMem_goes rfl hcode hact hframe host ⟨fun _ => 0, fun _ => 0, []⟩
    hfresh
  obtain ⟨s₂, hgoes', -⟩ := setListSize_goes rfl hcode' hact hframe host s₁
  have hstep : ListStep loopContext T listBytecode env host 2 8
      [⟨0, Bytes.bytesOf 1 4⟩] s₁ s₂ := .setListSize hcode' rfl rfl hgoes'
  have hwithin : ∀ w ∈ [(⟨0, Bytes.bytesOf 1 4⟩ : ListWrite)], w.Within 8 := by
    intro w hw
    rw [List.mem_singleton.mp hw, ListWrite.Within, Bytes.length_bytesOf]
    decide
  refine ⟨T, env, ps, p, q, s₁, _, s₂, hT, hact, hcode, hgoes, .tail (.refl _) hstep, hwithin,
    fun hequal => ?_⟩
  have hbyte := (hstep.holds hact hfresh hframe hwithin hholds).bytes 4 (by decide)
  have hlast := (hequal 4 (by decide)).symm.trans hbyte
  exact absurd hlast (by decide)

end Asllvm
