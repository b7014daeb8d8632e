import Asllvm.SystemCalls
import Asllvm.EntryContract
import Asllvm.Activation

/-!
# Null Checks

The instructions at which the AngelScript VM checks a pointer, and the place of
`emit_check_null_pointer` in their code. `RDSPtr` tests what it has read through the address instead
of the address, `ADDSi` tests nothing, and a call whose function returns on the stack tests the
object only after the return address was popped, so that it is looked for one slot too deep.

* `Raises` — an activation leaves with a null pointer exception, with nothing done but loading
  variables.
* `ChecksPointer` — an instruction raises iff the pointer is null.
* `ChecksSlot` — code that loads a pointer variable and checks it.

## Main results

* `nullCheck_runs` — what a null check does.
* `emitScriptCall_checks`, `emitSystemCall_checks` — where the code of a call checks its object.
* `nullChecks_iff` — when the instructions check their pointers as the VM does.
-/

open StateExcept Slots

namespace Asllvm

/-- An instruction that only computes, or loads a variable of the frame. -/
def Instr.ReadsFrame : Instr → Prop
  | .load _ _ (.frame _ _) => True
  | .binop _ _ _ _ _ | .icmp _ _ _ _ _ | .fcmp _ _ _ _ _ | .select _ _ _ _ | .cast _ _ _ _ _
  | .gep _ _ _ _ _ => True
  | _ => False

/-- An instruction that calls no script function and no native one. -/
def Instr.CallsNone : Instr → Prop
  | .call _ (.runtime _) _ => True
  | .call _ _ _ => False
  | _ => True

/-- **An activation raises a null pointer exception**: it returns that state, after it has only
loaded variables. -/
def Raises (env : Env) (host : Host) (calls : List Request) (s : LocalState) : Prop :=
  Returns env host Instr.ReadsFrame calls s VmState.ExceptionNullPointer.word calls s.mem

/-- An activation runs the code of an instruction to its end. -/
def Passes (ins : BytecodeInstruction) (ps : List Piece) (q : Position) (env : Env) (host : Host)
    (calls : List Request) (s : LocalState) : Prop :=
  ∃ regs mem, runCode env host ps ⟨s.regs, s.mem, calls⟩ = .goes ⟨regs, mem, calls⟩ ∧
    Reaches env host (fun _ => True) calls s calls ⟨q, regs, mem, some ins.offset⟩

/-- An activation comes to the call of a method. -/
def EntersMethod (env : Env) (host : Host) (calls : List Request) (s : LocalState) : Prop :=
  ∃ calls' s' i, Reaches env host Instr.CallsNone calls s calls' s' ∧
    itemAt env.blocks s'.position = some (.instr i) ∧ ¬ i.CallsNone

/-! ### The code of a check -/

/-- The code of `emit_check_null_pointer`. -/
def nullCheck (pointer : Value) (r : ℕ) : List Piece := [
  .instr (.icmp r .eq pointer.ty pointer.op (.const 0)),
  .check (.reg r) VmState.ExceptionNullPointer.const.op]

/-- Code that loads variables of the frame, to registers from `r` on. -/
def FrameLoads (stack : StackFrame) (r : ℕ) (ps : List Piece) : Prop :=
  ∀ piece ∈ ps, ∃ k ty o, r ≤ k ∧ piece = .instr (.load k ty (stack.slotAddress o))

/-- The loads of some code stay inside the allocas they address. -/
def LoadsAccessible (env : Env) (ps : List Piece) : Prop :=
  ∀ r ty ptr, Piece.instr (.load r ty ptr) ∈ ps → env.accessible ptr ty.storeSize = true

section Code

variable {T : Translation} {stack : StackFrame} {env : Env} {host : Host} {p : Progress}
  {ps qs : List Piece} {r : ℕ}

/-- **What a null check does**: it leaves if the pointer is null. -/
theorem nullCheck_runs {pointer : Value} (hty : pointer.ty.bits = 64) :
    runCode env host (nullCheck pointer r ++ ps) p =
      if pointer.op.eval env p.regs = 0 then
        .leaves VmState.ExceptionNullPointer.word ⟨Function.update p.regs r 1, p.world⟩
      else runCode env host ps ⟨Function.update p.regs r 0, p.world⟩ := by
  have hexec : (Instr.icmp r .eq pointer.ty pointer.op (.const 0)).exec env p.regs p.world.mem =
      some (Function.update p.regs r (ofBool (decide (pointer.op.eval env p.regs = 0))),
        p.world.mem) := by
    rw [Instr.exec, Pred.holds, Bool.beq_eq_decide_eq, hty, BitVec.setWidth_eq, Operand.eval,
      BitVec.setWidth_eq]
  rw [nullCheck, List.cons_append, List.cons_append, List.nil_append, runCode_step hexec, runCode]
  simp only [Operand.eval_reg, Function.update_self, ofBool_getLsbD, decide_eq_true_eq]
  by_cases hnull : pointer.op.eval env p.regs = 0
  · rw [if_pos hnull, if_pos hnull, decide_eq_true hnull]
    rfl
  · rw [if_neg hnull, if_neg hnull, decide_eq_false hnull]
    rfl

theorem FrameLoads.append (h : FrameLoads stack r ps) {r' : ℕ} (h' : FrameLoads stack r' qs)
    (hle : r ≤ r') : FrameLoads stack r (ps ++ qs) := by
  intro piece hpiece
  rcases List.mem_append.mp hpiece with hpiece | hpiece
  · exact h piece hpiece
  · obtain ⟨k, ty, o, hk, hload⟩ := h' piece hpiece
    exact ⟨k, ty, o, hle.trans hk, hload⟩

/-- A load inside its alloca. -/
theorem exists_exec_load {ty : Ty} {ptr : Operand} (h : env.accessible ptr ty.storeSize = true)
    (regs : Regs) (mem : Bytes.Mem) (r : ℕ) : ∃ v,
      (Instr.load r ty ptr).exec env regs mem = some (Function.update regs r v, mem) := by
  rw [Instr.exec, if_pos h]
  exact ⟨_, rfl⟩

/-- Loads of variables read the frame. -/
theorem FrameLoads.readsFrame (h : FrameLoads stack r ps) {i : Instr} (hi : .instr i ∈ ps) :
    i.ReadsFrame := by
  obtain ⟨k, ty, o, -, hload⟩ := h _ hi
  obtain rfl := Piece.instr.inj hload
  rw [StackFrame.slotAddress]
  split <;> trivial

/-- **Loads of variables set registers**, and do nothing else. -/
theorem FrameLoads.runs (h : FrameLoads stack r ps) (hloads : LoadsAccessible env ps) (host : Host)
    (p : Progress) : ∃ regs, (∀ qs, runCode env host (ps ++ qs) p =
      runCode env host qs ⟨regs, p.world⟩) ∧ ∀ k < r, regs k = p.regs k := by
  induction ps generalizing p with
  | nil => exact ⟨p.regs, fun qs => rfl, fun _ _ => rfl⟩
  | cons piece ps ih =>
      obtain ⟨k, ty, o, hk, rfl⟩ := h piece List.mem_cons_self
      obtain ⟨v, hexec⟩ := exists_exec_load (hloads k ty _ List.mem_cons_self) p.regs p.world.mem k
      obtain ⟨regs, hrun, hkept⟩ := ih (fun piece hpiece => h piece (List.mem_cons_of_mem _ hpiece))
        (fun r ty ptr hmem => hloads r ty ptr (List.mem_cons_of_mem _ hmem))
        ⟨Function.update p.regs k v, p.world⟩
      refine ⟨regs, fun qs => ?_, fun j hj => ?_⟩
      · rw [List.cons_append, runCode_step hexec, hrun]
      · exact (hkept j hj).trans (Function.update_of_ne (by omega) _ _)

/-- A pointer variable, loaded. -/
theorem exec_load_pointer (ty : Ty) {o : ℤ} (hact : Activates T env) (hframe : T.stack.InFrame o 8)
    (regs : Regs) (mem : Bytes.Mem) (r : ℕ) :
    (Instr.load r (.ptr ty) (T.stack.slotAddress o)).exec env regs mem = some (Function.update regs r
      (Bytes.read mem (T.stack.byteAddress env.layout o) 8), mem) := by
  have hload := hframe.exec_load (.ptr ty) hact regs mem r
  rwa [Ty.truncate_ptr] at hload

/-- **A variable is loaded and checked.** -/
theorem checkedLoad_runs (ty : Ty) (host : Host) {o : ℤ} (hact : Activates T env)
    (hframe : T.stack.InFrame o 8) (p : Progress) (r : ℕ) {v : Word}
    (hv : Bytes.read p.world.mem (T.stack.byteAddress env.layout o) 8 = v) : ∃ regs, regs r = v ∧
      ∀ ps, runCode env host (.instr (.load r (.ptr ty) (T.stack.slotAddress o)) ::
        (nullCheck ⟨.reg r, .ptr ty⟩ (r + 1) ++ ps)) p =
          if v = 0 then .leaves VmState.ExceptionNullPointer.word ⟨regs, p.world⟩
          else runCode env host ps ⟨regs, p.world⟩ := by
  have hload := exec_load_pointer ty hact hframe p.regs p.world.mem r
  rw [hv] at hload
  refine ⟨Function.update (Function.update p.regs r v) (r + 1) (if v = 0 then 1 else 0), ?_,
    fun ps => ?_⟩
  · rw [Function.update_of_ne (by omega), Function.update_self]
  · have heval : (Operand.reg r).eval env (Function.update p.regs r v) = v := Function.update_self _ _ _
    rw [runCode_step hload, nullCheck_runs rfl, heval]
    split <;> rfl

end Code

/-! ### The code of an instruction -/

section CodeOf

variable {context : FunctionContext} {bytecode : List BytecodeInstruction}
  {ins : BytecodeInstruction} {T : Translation} {sp : ℤ} {ps qs : List Piece} {p q : Position}
  {env : Env} {host : Host} {calls : List Request} {s : LocalState}

/-- **An activation that returns runs past every instruction it comes to.** -/
theorem Returns.holds_of_reaches {Q R : Instr → Prop} {state : Word} {calls' calls'' : List Request}
    {mem : Bytes.Mem} {s' : LocalState} {i : Instr}
    (h : Returns env host Q calls s state calls'' mem) (h' : Reaches env host R calls s calls' s')
    (hitem : itemAt env.blocks s'.position = some (.instr i)) : Q i := by
  obtain ⟨s'', hreaches, hret, -⟩ := h
  have hrest := h'.reaches_of_halts hreaches (halts_of_ret hret)
  cases hrest with
  | refl =>
      rw [LocalState.step, hitem] at hret
      cases i with
      | call => exact Outcome.noConfusion hret
      | _ =>
          dsimp only at hret
          split at hret <;> exact Outcome.noConfusion hret
  | next hq _ _ => exact hq i hitem
  | call hq _ _ _ => exact hq i hitem

/-- An activation that returns without calling a method enters none. -/
theorem Returns.not_entersMethod {state : Word} {calls' : List Request} {mem : Bytes.Mem}
    (h : Returns env host Instr.CallsNone calls s state calls' mem) :
    ¬ EntersMethod env host calls s := by
  rintro ⟨calls'', s', i, hreaches, hitem, hcalls⟩
  exact hcalls (h.holds_of_reaches hreaches hitem)

theorem CodeOf.raises (h : CodeOf context T bytecode ins sp (ps ++ qs) p q) (hact : Activates T env)
    (hs : s.position = p) (hreads : ∀ i, .instr i ∈ ps → i.ReadsFrame) {regs : Regs}
    (hrun : runCode env host ps ⟨s.regs, s.mem, calls⟩ =
      .leaves VmState.ExceptionNullPointer.word ⟨regs, s.mem, calls⟩) : Raises env host calls s := by
  obtain ⟨r, r', hreached, -⟩ := h.reached_prefix host _ calls hact.blocks hs hreads
  rw [hrun] at hreached
  exact hreached

theorem CodeOf.passes (h : CodeOf context T bytecode ins sp ps p q) (hact : Activates T env)
    (hs : s.position = p) {regs : Regs} {mem : Bytes.Mem}
    (hrun : runCode env host ps ⟨s.regs, s.mem, calls⟩ = .goes ⟨regs, mem, calls⟩) :
    Passes ins ps q env host calls s := by
  have hreached := h.reached host (fun _ => True) calls hact.blocks hs fun _ _ => trivial
  rw [hrun] at hreached
  exact ⟨regs, mem, hrun, hreached⟩

theorem not_passes_of_leaves {state : Word} {p' : Progress}
    (hrun : runCode env host ps ⟨s.regs, s.mem, calls⟩ = .leaves state p') :
    ¬ Passes ins ps q env host calls s := by
  rintro ⟨regs, mem, hgoes, -⟩
  exact CodeResult.noConfusion (hrun.symm.trans hgoes)

/-- Code that comes to a method call enters the method. -/
theorem CodeOf.entersMethod {i : Instr}
    (h : CodeOf context T bytecode ins sp (ps ++ .instr i :: qs) p q) (hact : Activates T env)
    (hs : s.position = p) (hnone : ∀ i, .instr i ∈ ps → i.CallsNone) (hi : ¬ i.CallsNone)
    {p' : Progress} (hrun : runCode env host ps ⟨s.regs, s.mem, calls⟩ = .goes p') :
    EntersMethod env host calls s := by
  obtain ⟨r, r', hreached, hrest⟩ := h.reached_prefix host _ calls hact.blocks hs hnone
  rw [hrun] at hreached
  refine ⟨_, _, i, hreached, ?_, hi⟩
  cases hrest with
  | instr hitem _ => exact hitem

/-- Code that does something else than loading variables does not raise. -/
theorem CodeOf.not_raises (ps : List Piece) {i : Instr}
    (h : CodeOf context T bytecode ins sp (ps ++ .instr i :: qs) p q) (hact : Activates T env)
    (hs : s.position = p) (hi : ¬ i.ReadsFrame) {p' : Progress}
    (hrun : runCode env host ps ⟨s.regs, s.mem, calls⟩ = .goes p') : ¬ Raises env host calls s := by
  intro hraises
  obtain ⟨r, r', hreached, hrest⟩ :=
    h.reached_prefix host (fun _ => True) calls hact.blocks hs fun _ _ => trivial
  rw [hrun] at hreached
  cases hrest with
  | instr hitem _ => exact hi (hraises.holds_of_reaches hreached hitem)

end CodeOf

/-! ### Instructions that check a pointer -/

/-- A call of a script function or of a native one. -/
def Opcode.callsFunction : Opcode → Bool
  | .CALL | .CALLINTF | .CALLSYS | .Thiscall1 => true
  | _ => false

/-- **An instruction checks a pointer as the AngelScript VM does**: it raises if the pointer is null,
and else runs through or comes to its call. -/
def ChecksPointer (ins : BytecodeInstruction) (ps : List Piece) (q : Position) (env : Env)
    (host : Host) (calls : List Request) (s : LocalState) (pointer : Word) : Prop :=
  (pointer = 0 → Raises env host calls s) ∧
    (pointer ≠ 0 → if ins.bc.callsFunction then EntersMethod env host calls s
      else Passes ins ps q env host calls s)

/-- Where the pointer lies that an instruction checks. -/
def checkedOffset (ins : BytecodeInstruction) (sp : ℤ) : Option ℤ :=
  match ins.bc with
  | .RDSPtr | .ADDSi | .CHKREF | .CALL | .CALLINTF | .CALLSYS | .Thiscall1 => some sp
  | .ChkNullV | .LoadRObjR => some ins.argSWord0
  | .LoadThisR => some 0
  | _ => none

section Simple

variable {context : FunctionContext} {bytecode : List BytecodeInstruction}
  {ins : BytecodeInstruction} {T : Translation} {sp o : ℤ} {ps : List Piece} {p q : Position}
  {env : Env} {host : Host} {calls : List Request} {s : LocalState} {e e' : EmitState}

/-- The address of a member is left in the value register. -/
theorem memberAddress_goes (base : Operand) (index : Value) (r : ℕ) (host : Host) (p : Progress)
    (hact : Activates T env) : ∃ regs mem, runCode env host [
      .instr (.gep r base index.op index.ty 1),
      .instr (.store .pvoid (.reg r) (.frame .valueRegister 0))] p =
        .goes ⟨regs, mem, p.world.calls⟩ := by
  have hgep : ∃ regs, (Instr.gep r base index.op index.ty 1).exec env p.regs p.world.mem =
      some (regs, p.world.mem) := ⟨_, rfl⟩
  obtain ⟨regs, hgep⟩ := hgep
  have hstore := exec_store_alloca .pvoid (hact.valueRegister ▸ Ty.pvoid.storeSize_le) regs p.world.mem
    (.reg r)
  exact ⟨_, _, (runCode_step hgep).trans (runCode_step hstore)⟩

/-- The code of an instruction that loads its pointer and checks it. -/
theorem checkedLoad_code (hbc : ins.bc = .CHKREF ∨ ins.bc = .ChkNullV ∨ ins.bc = .LoadThisR ∨
      ins.bc = .LoadRObjR) (ho : checkedOffset ins e.stackPointer = some o) (hout : e.out = [])
    (h : Runs (translateOrdinary T.stack ins) e () e') :
    ∃ rest, e'.out = .instr (.load e.nextReg .pvoid (T.stack.slotAddress o)) ::
        (nullCheck ⟨.reg e.nextReg, .pvoid⟩ (e.nextReg + 1) ++ rest) ∧
      ∀ env host p, Activates T env → ∃ regs mem,
        runCode env host rest p = .goes ⟨regs, mem, p.world.calls⟩ := by
  rcases hbc with hbc | hbc | hbc | hbc
  · rw [checkedOffset, hbc, Option.some.injEq] at ho
    simp [translateOrdinary, hbc] at h
    rw [h.2, EmitState.extend_out, hout, ho]
    exact ⟨[], rfl, fun env host p _ => ⟨_, _, rfl⟩⟩
  · rw [checkedOffset, hbc, Option.some.injEq] at ho
    simp [translateOrdinary, hbc] at h
    rw [h.2, EmitState.extend_out, hout, ho]
    exact ⟨[], rfl, fun env host p _ => ⟨_, _, rfl⟩⟩
  · rw [checkedOffset, hbc, Option.some.injEq] at ho
    simp [translateOrdinary, hbc] at h
    rw [h.2, EmitState.extend_out, hout, ← ho]
    exact ⟨_, rfl, fun env host p hact =>
      memberAddress_goes _ (constantInt .iptr ins.argSWord0) _ host p hact⟩
  · rw [checkedOffset, hbc, Option.some.injEq] at ho
    simp [translateOrdinary, hbc] at h
    rw [h.2, EmitState.extend_out, hout, ho]
    exact ⟨_, rfl, fun env host p hact =>
      memberAddress_goes _ (constantInt .iptr ins.argSWord1) _ host p hact⟩

/-- **A pointer that is loaded and checked right away** is checked as the VM checks it. -/
theorem CodeOf.checksPointer_variable (h : CodeOf context T bytecode ins sp ps p q)
    (hbc : ins.bc = .CHKREF ∨ ins.bc = .ChkNullV ∨ ins.bc = .LoadThisR ∨ ins.bc = .LoadRObjR)
    (ho : checkedOffset ins sp = some o) (hact : Activates T env) (hframe : T.stack.InFrame o 8)
    (hs : s.position = p) : ChecksPointer ins ps q env host calls s
      (Bytes.read s.mem (T.stack.byteAddress env.layout o) 8) := by
  have hordinary : ins.bc.endsBlock = false ∧ ins.bc.callsFunction = false := by
    rcases hbc with hbc | hbc | hbc | hbc <;> rw [hbc] <;> exact ⟨rfl, rfl⟩
  obtain ⟨e, e', rfl, hout, rfl, hruns⟩ := h.ordinary hordinary.1
  obtain ⟨rest, hcode, hrest⟩ := checkedLoad_code hbc ho hout hruns
  rw [hcode] at h ⊢
  obtain ⟨regs, -, hrun⟩ := checkedLoad_runs .i8 host hact hframe ⟨s.regs, s.mem, calls⟩
    e.nextReg rfl
  refine ⟨fun hnull => ?_, fun hnull => ?_⟩
  · have hleaves := hrun []
    rw [if_pos hnull, List.append_nil] at hleaves
    rw [← List.cons_append] at h
    refine h.raises hact hs (fun i hi => ?_) hleaves
    have hcases : i = .load e.nextReg .pvoid (T.stack.slotAddress o) ∨
        i = .icmp (e.nextReg + 1) .eq .pvoid (.reg e.nextReg) (.const 0) := by
      simpa [nullCheck] using hi
    rcases hcases with rfl | rfl
    · rw [StackFrame.slotAddress]
      split <;> trivial
    · trivial
  · rw [hordinary.2, if_neg Bool.false_ne_true]
    obtain ⟨regs', mem, hgoes⟩ := hrest env host ⟨regs, s.mem, calls⟩ hact
    have hpasses := hrun rest
    rw [if_neg hnull] at hpasses
    exact h.passes hact hs (hpasses.trans hgoes)

/-- The code of `RDSPtr`. -/
def rdsPtrCode (slot : Operand) (r : ℕ) : List Piece := [
  .instr (.load r (.ptr .pvoid) slot),
  .instr (.load (r + 1) .pvoid (.reg r))] ++
  (nullCheck ⟨.reg (r + 1), .pvoid⟩ (r + 2) ++ [.instr (.store .pvoid (.reg (r + 1)) slot)])

/-- What `RDSPtr` does: it checks what it has read through the address. -/
theorem rdsPtrCode_runs (hact : Activates T env) (hframe : T.stack.InFrame o 8) (host : Host)
    (p : Progress) (r : ℕ) {address : Word}
    (haddress : Bytes.read p.world.mem (T.stack.byteAddress env.layout o) 8 = address) :
    (Bytes.read p.world.mem address.toNat 8 = 0 → ∃ state p',
      runCode env host (rdsPtrCode (T.stack.slotAddress o) r) p = .leaves state p') ∧
    (Bytes.read p.world.mem address.toNat 8 ≠ 0 → ∃ regs mem,
      runCode env host (rdsPtrCode (T.stack.slotAddress o) r) p =
        .goes ⟨regs, mem, p.world.calls⟩) := by
  have hload := exec_load_pointer .pvoid hact hframe p.regs p.world.mem r
  rw [haddress] at hload
  have hload' := @exec_load_reg env .pvoid (Function.update p.regs r address) p.world.mem (r + 1) r
  rw [Function.update_self] at hload'
  have htruncate : Ty.pvoid.truncate (Bytes.read p.world.mem address.toNat Ty.pvoid.storeSize) =
      Bytes.read p.world.mem address.toNat 8 := Ty.truncate_ptr .i8 _
  rw [htruncate] at hload'
  rw [rdsPtrCode, List.cons_append, List.cons_append, List.nil_append, runCode_step hload,
    runCode_step hload', nullCheck_runs rfl]
  have heval : (Operand.reg (r + 1)).eval env (Function.update (Function.update p.regs r address)
      (r + 1) (Bytes.read p.world.mem address.toNat 8)) = Bytes.read p.world.mem address.toNat 8 :=
    Function.update_self _ _ _
  dsimp only
  rw [heval]
  refine ⟨fun hnull => ?_, fun hnull => ?_⟩
  · rw [if_pos hnull]
    exact ⟨_, _, rfl⟩
  · rw [if_neg hnull]
    exact ⟨_, _, runCode_step (hframe.exec_store .pvoid hact _ _ _)⟩

/-- **`RDSPtr` checks its address as the VM does** iff it reads a pointer that is not null, through
an address that is not null. -/
theorem CodeOf.checksPointer_rdsPtr (h : CodeOf context T bytecode ins sp ps p q)
    (hbc : ins.bc = .RDSPtr) (hact : Activates T env) (hframe : T.stack.InFrame sp 8)
    (hs : s.position = p) {address : Word}
    (haddress : Bytes.read s.mem (T.stack.byteAddress env.layout sp) 8 = address) :
    ChecksPointer ins ps q env host calls s address ↔
      address ≠ 0 ∧ Bytes.read s.mem address.toNat 8 ≠ 0 := by
  obtain ⟨e, e', rfl, hout, rfl, hruns⟩ := h.ordinary (by rw [hbc]; rfl)
  have hcode : e'.out = rdsPtrCode (T.stack.slotAddress e.stackPointer) e.nextReg := by
    simp [translateOrdinary, hbc] at hruns
    rw [hruns.2, EmitState.extend_out, hout]
    rfl
  rw [hcode] at h ⊢
  obtain ⟨hleaves, hgoes⟩ := rdsPtrCode_runs hact hframe host ⟨s.regs, s.mem, calls⟩ e.nextReg haddress
  rw [ChecksPointer, hbc]
  constructor
  · rintro ⟨hnull, hpasses⟩
    have hne : address ≠ 0 := by
      intro haddress
      -- the load through the address comes before the check
      have hload := exec_load_pointer .pvoid hact hframe s.regs s.mem e.nextReg
      exact CodeOf.not_raises [_] h hact hs id ((runCode_step hload).trans rfl) (hnull haddress)
    refine ⟨hne, fun hvalue => ?_⟩
    obtain ⟨state, p', hleaves⟩ := hleaves hvalue
    exact not_passes_of_leaves hleaves (hpasses hne)
  · rintro ⟨hne, hvalue⟩
    refine ⟨fun hnull => absurd hnull hne, fun _ => ?_⟩
    obtain ⟨regs, mem, hgoes⟩ := hgoes hvalue
    exact h.passes hact hs hgoes

/-- **`ADDSi` checks its pointer as the VM does** iff that is not null: it checks nothing. -/
theorem CodeOf.checksPointer_addsi (h : CodeOf context T bytecode ins sp ps p q)
    (hbc : ins.bc = .ADDSi) (hact : Activates T env) (hframe : T.stack.InFrame sp 8)
    (hs : s.position = p) (pointer : Word) :
    ChecksPointer ins ps q env host calls s pointer ↔ pointer ≠ 0 := by
  obtain ⟨e, e', rfl, hout, rfl, hruns⟩ := h.ordinary (by rw [hbc]; rfl)
  simp [translateOrdinary, hbc] at hruns
  obtain ⟨-, rfl⟩ := hruns
  rw [EmitState.extend_out, hout] at h ⊢
  have hload := hframe.exec_load .i64 hact s.regs s.mem e.nextReg
  obtain ⟨regs, hadd⟩ : ∃ regs, (Instr.binop (e.nextReg + 1) .add .i64 (.reg e.nextReg)
      (constantInt .iptr ins.argSWord0).op).exec env (Function.update s.regs e.nextReg
        (Ty.i64.truncate (Bytes.read s.mem (T.stack.byteAddress env.layout e.stackPointer) 8))) s.mem =
          some (regs, s.mem) := ⟨_, rfl⟩
  have hloads : ∀ ps, runCode env host (.instr (.load e.nextReg .i64
      (T.stack.slotAddress e.stackPointer)) :: .instr (.binop (e.nextReg + 1) .add .i64
        (.reg e.nextReg) (constantInt .iptr ins.argSWord0).op) :: ps) ⟨s.regs, s.mem, calls⟩ =
          runCode env host ps ⟨regs, s.mem, calls⟩ :=
    fun ps => (runCode_step hload).trans (runCode_step hadd)
  rw [ChecksPointer, hbc]
  constructor
  · rintro ⟨hnull, -⟩ hpointer
    exact CodeOf.not_raises [_, _] h hact hs id (hloads []) (hnull hpointer)
  · intro hne
    have hstore := hframe.exec_store .i64 hact regs s.mem (.reg (e.nextReg + 1))
    have hgoes := (hloads [_]).trans (runCode_step hstore)
    exact ⟨fun hnull => absurd hnull hne, fun _ => h.passes hact hs hgoes⟩

end Simple

/-! ### Method calls -/

/-- Code that loads a pointer variable, maybe others before and after it, and checks it. -/
def ChecksSlot (stack : StackFrame) (o : ℤ) (ps : List Piece) : Prop :=
  ∃ before r ty after r', ps = before ++ .instr (.load r (.ptr ty) (stack.slotAddress o)) ::
      (after ++ nullCheck ⟨.reg r, .ptr ty⟩ r') ∧
    FrameLoads stack 0 before ∧ FrameLoads stack (r + 1) after

/-- Code that only loads variables and calls the runtime. -/
def Prepares (stack : StackFrame) (ps : List Piece) : Prop :=
  ∀ piece ∈ ps, (∃ k ty o, piece = .instr (.load k ty (stack.slotAddress o))) ∨
    ∃ dst f args, piece = .instr (.call dst (.runtime f) args)

/-- The lookups of methods leave the memory as it is. -/
def LooksUp (host : Host) : Prop :=
  ∀ args mem calls, (host (⟨.runtime .scriptVtableLookup, args, mem⟩ :: calls)).2 = mem

section Slots

variable {T : Translation} {stack : StackFrame} {env : Env} {host : Host} {o : ℤ}
  {ps qs : List Piece} {i : Instr}

theorem LoadsAccessible.mono (h : LoadsAccessible env qs) (hsub : ps ⊆ qs) :
    LoadsAccessible env ps :=
  fun r ty ptr hmem => h r ty ptr (hsub hmem)

theorem Instr.ReadsFrame.callsNone (h : i.ReadsFrame) : i.CallsNone := by
  cases i with
  | call dst callee args => exact h.elim
  | _ => trivial

/-- The check of a variable loads variables only. -/
theorem ChecksSlot.readsFrame (h : ChecksSlot stack o ps) (hi : .instr i ∈ ps) : i.ReadsFrame := by
  obtain ⟨before, r, ty, after, r', rfl, hbefore, hafter⟩ := h
  have hcases : .instr i ∈ before ∨ i = .load r (.ptr ty) (stack.slotAddress o) ∨
      .instr i ∈ after ∨ i = .icmp r' .eq (.ptr ty) (.reg r) (.const 0) := by
    simpa [nullCheck] using hi
  rcases hcases with hi | rfl | hi | rfl
  · exact hbefore.readsFrame hi
  · rw [StackFrame.slotAddress]
    split <;> trivial
  · exact hafter.readsFrame hi
  · trivial

/-- **The check of a variable** leaves if the variable is null, and else does nothing. -/
theorem ChecksSlot.runs (h : ChecksSlot T.stack o ps) (hact : Activates T env)
    (hframe : T.stack.InFrame o 8) (hloads : LoadsAccessible env ps) (host : Host) (p : Progress)
    {v : Word} (hv : Bytes.read p.world.mem (T.stack.byteAddress env.layout o) 8 = v) :
    ∃ regs, ∀ qs, runCode env host (ps ++ qs) p =
      if v = 0 then .leaves VmState.ExceptionNullPointer.word ⟨regs, p.world⟩
      else runCode env host qs ⟨regs, p.world⟩ := by
  obtain ⟨before, r, ty, after, r', rfl, hbefore, hafter⟩ := h
  obtain ⟨regs₁, hrun₁, -⟩ := hbefore.runs (hloads.mono (List.subset_append_left _ _)) host p
  have hload := exec_load_pointer ty hact hframe regs₁ p.world.mem r
  rw [hv] at hload
  obtain ⟨regs₂, hrun₂, hkept⟩ := hafter.runs
    (hloads.mono fun piece hpiece => List.mem_append_right _ (List.mem_cons_of_mem _
      (List.mem_append_left _ hpiece))) host ⟨Function.update regs₁ r v, p.world⟩
  have heval : (Operand.reg r).eval env regs₂ = v :=
    (hkept r (Nat.lt_succ_self r)).trans (Function.update_self _ _ _)
  refine ⟨Function.update regs₂ r' (if v = 0 then 1 else 0), fun qs => ?_⟩
  rw [List.append_assoc, List.cons_append, List.append_assoc, hrun₁, runCode_step hload, hrun₂,
    nullCheck_runs rfl, heval]
  split <;> rfl

theorem Prepares.append (h : Prepares stack ps) (h' : Prepares stack qs) :
    Prepares stack (ps ++ qs) := by
  intro piece hpiece
  rcases List.mem_append.mp hpiece with hpiece | hpiece
  · exact h piece hpiece
  · exact h' piece hpiece

theorem Prepares.callsNone (h : Prepares stack ps) (hi : .instr i ∈ ps) : i.CallsNone := by
  rcases h _ hi with ⟨k, ty, o, hload⟩ | ⟨dst, f, args, hcall⟩
  · obtain rfl := Piece.instr.inj hload
    trivial
  · obtain rfl := Piece.instr.inj hcall
    trivial

/-- Code that prepares a call comes to its end, by induction on it. -/
theorem Prepares.goes (h : Prepares stack ps) (hloads : LoadsAccessible env ps) (host : Host)
    (p : Progress) : ∃ p', runCode env host ps p = .goes p' := by
  induction ps generalizing p with
  | nil => exact ⟨p, rfl⟩
  | cons piece ps ih =>
      have hrest := ih (fun piece hpiece => h piece (List.mem_cons_of_mem _ hpiece))
        (hloads.mono (List.subset_cons_self _ _))
      rcases h piece List.mem_cons_self with ⟨k, ty, o, rfl⟩ | ⟨dst, f, args, rfl⟩
      · obtain ⟨v, hexec⟩ := exists_exec_load (hloads k ty _ List.mem_cons_self) p.regs p.world.mem k
        obtain ⟨p', hrun⟩ := hrest ⟨Function.update p.regs k v, p.world⟩
        exact ⟨p', (runCode_step hexec).trans hrun⟩
      · exact hrest _

end Slots

section Calls

variable {context : FunctionContext} {bytecode : List BytecodeInstruction}
  {ins : BytecodeInstruction} {T : Translation} {sp o : ℤ} {first lookup checked prepare rest : List Piece}
  {i : Instr} {p q : Position} {env : Env} {host : Host} {calls : List Request} {s : LocalState}
  {tested : Word}

/-- **A call that checks a variable** checks the pointer as the VM does iff the variable is null
whenever the pointer is. -/
theorem CodeOf.checksPointer_slot
    (h : CodeOf context T bytecode ins sp (checked ++ (prepare ++ .instr i :: rest)) p q)
    (hcalls : ins.bc.callsFunction = true) (hi : ¬ i.CallsNone)
    (hchecked : ChecksSlot T.stack o checked) (hprepare : Prepares T.stack prepare)
    (hact : Activates T env) (hframe : T.stack.InFrame o 8)
    (hloads : LoadsAccessible env (checked ++ (prepare ++ .instr i :: rest))) (hs : s.position = p)
    (htested : Bytes.read s.mem (T.stack.byteAddress env.layout o) 8 = tested) (pointer : Word) :
    ChecksPointer ins (checked ++ (prepare ++ .instr i :: rest)) q env host calls s pointer ↔
      (pointer = 0 ↔ tested = 0) := by
  obtain ⟨regs, hrun⟩ := hchecked.runs hact hframe (hloads.mono (List.subset_append_left _ _)) host
    ⟨s.regs, s.mem, calls⟩ htested
  have hreads : ∀ i, .instr i ∈ checked → i.ReadsFrame := fun i hi => hchecked.readsFrame hi
  have hnone : ∀ i, .instr i ∈ checked ++ prepare → i.CallsNone := by
    intro i hi
    rcases List.mem_append.mp hi with hi | hi
    · exact (hreads i hi).callsNone
    · exact hprepare.callsNone hi
  have hraises : tested = 0 → Raises env host calls s := by
    intro hnull
    have hleaves := hrun []
    rw [if_pos hnull, List.append_nil] at hleaves
    exact h.raises hact hs hreads hleaves
  have hgoes : tested ≠ 0 → ∃ p', runCode env host (checked ++ prepare) ⟨s.regs, s.mem, calls⟩ =
      .goes p' := by
    intro hnull
    rw [hrun, if_neg hnull]
    exact hprepare.goes (hloads.mono fun piece hpiece => List.mem_append_right _
      (List.mem_append_left _ hpiece)) host _
  have hleaves : tested = 0 → ¬ EntersMethod env host calls s := by
    intro hnull
    obtain ⟨s', hreaches, hreturned⟩ := hraises hnull
    exact Returns.not_entersMethod ⟨s', hreaches.mono fun i => Instr.ReadsFrame.callsNone, hreturned⟩
  rw [ChecksPointer, if_pos hcalls]
  rw [← List.append_assoc] at h
  constructor
  · rintro ⟨hnull, henters⟩
    refine ⟨fun hpointer => ?_, fun htested => ?_⟩
    · by_contra hne
      obtain ⟨p', hgoes⟩ := hgoes hne
      exact CodeOf.not_raises _ h hact hs (fun hreads => hi hreads.callsNone) hgoes (hnull hpointer)
    · by_contra hne
      exact hleaves htested (henters hne)
  · intro hiff
    refine ⟨fun hpointer => hraises (hiff.mp hpointer), fun hpointer => ?_⟩
    obtain ⟨p', hgoes⟩ := hgoes fun htested => hpointer (hiff.mpr htested)
    exact h.entersMethod hact hs hnone hi hgoes

/-- **A virtual call** checks the pointer as the VM does iff the variable that it checks after the
lookup is not null, or the pointer is. -/
theorem CodeOf.checksPointer_virtual
    (h : CodeOf context T bytecode ins sp (first ++ (lookup ++ (checked ++ (prepare ++
      .instr i :: rest)))) p q)
    (hcalls : ins.bc.callsFunction = true) (hi : ¬ i.CallsNone)
    (hfirst : ChecksSlot T.stack sp first)
    (hlookup : lookup = [] ∨ ∃ dst args, lookup =
      [.instr (.call dst (.runtime .scriptVtableLookup) args)])
    (hchecked : ChecksSlot T.stack o checked) (hprepare : Prepares T.stack prepare)
    (hact : Activates T env) (hhost : LooksUp host) (htop : T.stack.InFrame sp 8)
    (hframe : T.stack.InFrame o 8) (hloads : LoadsAccessible env (first ++ (lookup ++ (checked ++
      (prepare ++ .instr i :: rest))))) (hs : s.position = p) {pointer : Word}
    (hpointer : Bytes.read s.mem (T.stack.byteAddress env.layout sp) 8 = pointer)
    (htested : Bytes.read s.mem (T.stack.byteAddress env.layout o) 8 = tested) :
    ChecksPointer ins (first ++ (lookup ++ (checked ++ (prepare ++ .instr i :: rest)))) q env host
      calls s pointer ↔ (pointer ≠ 0 → tested ≠ 0) := by
  obtain ⟨regs, hrun⟩ := hfirst.runs hact htop (hloads.mono (List.subset_append_left _ _)) host
    ⟨s.regs, s.mem, calls⟩ hpointer
  have hraises : pointer = 0 → Raises env host calls s := by
    intro hnull
    have hleaves := hrun []
    rw [if_pos hnull, List.append_nil] at hleaves
    exact h.raises hact hs (fun i hi => hfirst.readsFrame hi) hleaves
  -- the lookup changes registers, and the calls made so far
  obtain ⟨regs', calls', hlooked⟩ : ∃ regs' calls', ∀ qs, runCode env host (lookup ++ qs)
      ⟨regs, s.mem, calls⟩ = runCode env host qs ⟨regs', s.mem, calls'⟩ := by
    rcases hlookup with rfl | ⟨dst, args, rfl⟩
    · exact ⟨regs, calls, fun qs => rfl⟩
    · have hmem := hhost (args.map (·.eval env regs)) s.mem calls
      obtain ⟨regs', hcall⟩ : ∃ regs', Progress.call host ⟨regs, s.mem, calls⟩ dst
          (.runtime .scriptVtableLookup) (args.map (·.eval env regs)) =
          ⟨regs', s.mem, ⟨.runtime .scriptVtableLookup, args.map (·.eval env regs), s.mem⟩ ::
            calls⟩ := by
        simp only [Progress.call, World.call, hmem]
        exact ⟨_, rfl⟩
      exact ⟨regs', _, fun qs => congrArg (runCode env host qs) hcall⟩
  have hsub : checked ⊆ first ++ (lookup ++ (checked ++ (prepare ++ .instr i :: rest))) :=
    fun piece hpiece => List.mem_append_right _ (List.mem_append_right _
      (List.mem_append_left _ hpiece))
  obtain ⟨regs'', hrun'⟩ := hchecked.runs hact hframe (hloads.mono hsub) host
    ⟨regs', s.mem, calls'⟩ htested
  have hnone : ∀ i, .instr i ∈ first ++ (lookup ++ (checked ++ prepare)) → i.CallsNone := by
    intro i hi
    rcases List.mem_append.mp hi with hi | hi
    · exact (hfirst.readsFrame hi).callsNone
    rcases List.mem_append.mp hi with hi | hi
    · rcases hlookup with rfl | ⟨dst, args, rfl⟩
      · exact absurd hi (List.not_mem_nil)
      · obtain rfl := Piece.instr.inj (List.mem_singleton.mp hi)
        trivial
    rcases List.mem_append.mp hi with hi | hi
    · exact (hchecked.readsFrame hi).callsNone
    · exact hprepare.callsNone hi
  have hcode : first ++ (lookup ++ (checked ++ (prepare ++ .instr i :: rest))) =
      (first ++ (lookup ++ (checked ++ prepare))) ++ .instr i :: rest := by
    simp only [List.append_assoc]
  have hthrough : pointer ≠ 0 → ∀ qs, runCode env host (first ++ (lookup ++ (checked ++ qs)))
      ⟨s.regs, s.mem, calls⟩ = if tested = 0
        then .leaves VmState.ExceptionNullPointer.word ⟨regs'', s.mem, calls'⟩
        else runCode env host qs ⟨regs'', s.mem, calls'⟩ := by
    intro hne qs
    rw [hrun, if_neg hne, hlooked, hrun']
  rw [ChecksPointer, if_pos hcalls]
  rw [hcode] at h
  constructor
  · rintro ⟨-, henters⟩ hne hnull
    have hleaves := hthrough hne prepare
    rw [if_pos hnull] at hleaves
    obtain ⟨r, r', hreached, -⟩ := h.reached_prefix host _ calls hact.blocks hs hnone
    rw [hleaves] at hreached
    exact hreached.not_entersMethod (henters hne)
  · intro hne
    refine ⟨hraises, fun hpointer => ?_⟩
    obtain ⟨p', hgoes⟩ := hprepare.goes (hloads.mono fun piece hpiece => List.mem_append_right _
      (List.mem_append_right _ (List.mem_append_right _ (List.mem_append_left _ hpiece)))) host
      ⟨regs'', s.mem, calls'⟩
    have hrun := hthrough hpointer prepare
    rw [if_neg (hne hpointer), hgoes] at hrun
    exact h.entersMethod hact hs hnone hi hrun

end Calls

/-! ### The code of a script call -/

/-- The dwords of the return address that a script call pops before the object. -/
def ScriptFunction.returnAddressDWords (function : ScriptFunction) : ℕ :=
  if function.ReturnsOnStack then function.returnType.sizeOnStackDWords else 0

section ScriptCall

variable {stack : StackFrame} {callee : ScriptFunction} {e e' : EmitState} {vs : List Value}
  {n m : ℕ}

theorem prepares_load {k : ℕ} {ty : Ty} {o : ℤ} :
    Prepares stack [.instr (.load k ty (stack.slotAddress o))] := by
  intro piece hpiece
  exact .inl ⟨k, ty, o, List.mem_singleton.mp hpiece⟩

/-- One pop is one load. -/
theorem popArgument_loads {type : DataType} {v : Value}
    (h : Runs (popArgument stack none type n) e (v, m) e') : toLlvmType type = .ok v.ty ∧
      v.op = .reg e.nextReg ∧ m = n + type.sizeOnStackDWords ∧
      e' = (e.move (-type.sizeOnStackDWords)).extend 1
        [.instr (.load e.nextReg v.ty (stack.slotAddress e.stackPointer))] := by
  simp only [popArgument, runs_bind, runs_lift, StackFrame.runs_pop, runs_pure,
    Prod.mk.injEq] at h
  obtain ⟨ty, _, ⟨hty, rfl⟩, _, _, ⟨-, rfl, rfl⟩, ⟨rfl, rfl⟩, rfl⟩ := h
  exact ⟨hty, rfl, rfl, rfl⟩

/-- The return address, if it is popped, is loaded. -/
theorem returnArguments_loads {types : List Ty}
    (h : Runs (returnArguments stack none callee types) e (vs, m) e') :
    ∃ ps, e'.out = e.out ++ ps ∧ FrameLoads stack 0 ps ∧ m = callee.returnAddressDWords ∧
      e'.stackPointer = e.stackPointer - m := by
  rw [returnArguments] at h
  by_cases hret : callee.ReturnsOnStack
  · rw [ScriptFunction.returnAddressDWords, if_pos hret]
    obtain ⟨hvoid, hstack⟩ := hret
    simp only [hvoid, hstack, ne_eq, not_false_eq_true, if_true, runs_bind, runs_pure,
      Prod.mk.injEq] at h
    obtain ⟨⟨v, k⟩, _, hpop, ⟨rfl, rfl⟩, rfl⟩ := h
    obtain ⟨-, -, rfl, rfl⟩ := popArgument_loads hpop
    refine ⟨_, rfl, fun piece hpiece => ⟨_, _, _, Nat.zero_le _, List.mem_singleton.mp hpiece⟩,
      Nat.zero_add _, ?_⟩
    simp [Int.sub_eq_add_neg]
  · rw [ScriptFunction.returnAddressDWords, if_neg hret]
    -- a register needs no code
    have hnone : m = 0 ∧ e' = e := by
      by_cases hvoid : callee.returnType.tokenType = .ttVoid
      · obtain ⟨⟨-, rfl⟩, rfl⟩ := by simpa [hvoid] using h
        exact ⟨rfl, rfl⟩
      · have hstack : callee.doesReturnOnStack = false := by
          rw [← Bool.not_eq_true]
          exact fun hstack => hret ⟨hvoid, hstack⟩
        simp only [hvoid, hstack, ne_eq, not_false_eq_true, if_true, Bool.false_eq_true, if_false,
          runs_bind, runs_elementAt] at h
        obtain ⟨ty, s', ⟨-, rfl⟩, h⟩ := h
        split at h
        · obtain ⟨⟨-, rfl⟩, rfl⟩ := by simpa using h
          exact ⟨rfl, rfl⟩
        · split at h
          · obtain ⟨⟨-, rfl⟩, rfl⟩ := by simpa using h
            exact ⟨rfl, rfl⟩
          · simp only [runs_bind, runs_asllvmAssert, runs_pure, Prod.mk.injEq] at h
            obtain ⟨_, _, ⟨-, rfl⟩, ⟨-, rfl⟩, rfl⟩ := h
            exact ⟨rfl, rfl⟩
    obtain ⟨rfl, rfl⟩ := hnone
    exact ⟨[], (List.append_nil _).symm, fun piece hpiece => absurd hpiece List.not_mem_nil, rfl,
      (Int.sub_zero _).symm⟩

/-- The parameters are loaded, by induction on their list. -/
theorem parameterArguments_prepares {types : List DataType}
    (h : Runs (parameterArguments stack none types n) e (vs, m) e') :
    ∃ ps, e'.out = e.out ++ ps ∧ Prepares stack ps := by
  induction types generalizing n e vs with
  | nil =>
      obtain ⟨⟨rfl, rfl⟩, rfl⟩ := by simpa [parameterArguments] using h
      exact ⟨[], (List.append_nil _).symm, fun piece hpiece => absurd hpiece List.not_mem_nil⟩
  | cons type types ih =>
      simp only [parameterArguments, runs_bind, runs_pure, Prod.mk.injEq] at h
      obtain ⟨⟨v, k⟩, u, hpop, ⟨vs', l⟩, w, hrest, ⟨rfl, rfl⟩, rfl⟩ := h
      obtain ⟨-, -, rfl, rfl⟩ := popArgument_loads hpop
      obtain ⟨ps, hout, hps⟩ := ih hrest
      rw [EmitState.extend_out, EmitState.move_out, List.append_assoc] at hout
      exact ⟨_, hout, prepares_load.append hps⟩

/-- A virtual call checks the top of the stack and may look the method up. -/
theorem resolveVirtual_checks {ty : Ty} {v target : Value} {u : EmitState}
    (htop : Runs (stack.top (.ptr ty)) e v u)
    (h : Runs (resolveVirtualScriptFunction stack.config v callee) u target e') :
    ∃ first lookup, e'.out = e.out ++ (first ++ lookup) ∧ e'.stackPointer = e.stackPointer ∧
      ChecksSlot stack e.stackPointer first ∧
      (lookup = [] ∨ ∃ dst args, lookup =
        [.instr (.call dst (.runtime .scriptVtableLookup) args)]) := by
  obtain ⟨-, rfl, rfl⟩ := (stack.runs_top).mp htop
  simp only [resolveVirtualScriptFunction, runs_bind, runs_emitCheckNullPointer,
    runs_dereference] at h
  obtain ⟨_, _, rfl, ot, _, ⟨-, rfl⟩, h⟩ := h
  have hchecks : ChecksSlot stack e.stackPointer
      (.instr (.load e.nextReg (.ptr ty) (stack.slotAddress e.stackPointer)) ::
        nullCheck ⟨.reg e.nextReg, .ptr ty⟩ (e.nextReg + 1)) :=
    ⟨[], _, _, [], _, rfl, fun piece hpiece => absurd hpiece List.not_mem_nil,
      fun piece hpiece => absurd hpiece List.not_mem_nil⟩
  split at h
  · simp only [runs_bind, runs_asllvmAssert, runs_dereference, getScriptFunction, runs_pure] at h
    obtain ⟨_, _, ⟨-, rfl⟩, _, _, ⟨-, rfl⟩, _, _, ⟨-, rfl⟩, -, rfl⟩ := h
    refine ⟨_, [], ?_, rfl, hchecks, .inl rfl⟩
    simp [nullCheck]
  · rw [runs_createCall_ptr] at h
    obtain ⟨-, rfl⟩ := h
    refine ⟨_, [.instr (.call (some (e.nextReg + 2)) (.runtime .scriptVtableLookup)
      [⟨.reg e.nextReg, .ptr ty⟩, ⟨.descriptor callee.id, .pvoid⟩])], ?_, rfl, hchecks,
      .inr ⟨_, _, rfl⟩⟩
    simp [nullCheck]

/-- **The code of a method call**: a virtual one checks the top of the stack; then every one pops
its return address, and checks the object below that. -/
theorem emitScriptCall_checks {objectType : ObjectType} (hobject : callee.objectType = some objectType)
    (hprim : (stack.engine.objectDataType objectType).isPrimitive = false)
    (h : Runs (emitScriptCall stack callee) e n e') :
    ∃ first lookup checked prepare i rest,
      e'.out = e.out ++ (first ++ (lookup ++ (checked ++ (prepare ++ .instr i :: rest)))) ∧
      ¬ i.CallsNone ∧ ChecksSlot stack (e.stackPointer - callee.returnAddressDWords) checked ∧
      Prepares stack prepare ∧
      (lookup = [] ∨ ∃ dst args, lookup =
        [.instr (.call dst (.runtime .scriptVtableLookup) args)]) ∧
      if callee.funcType = .asFUNC_VIRTUAL then ChecksSlot stack e.stackPointer first
      else first = [] ∧ lookup = [] := by
  simp only [emitScriptCall, runs_bind, runs_asllvmAssert, runs_lift, runs_createCall_i8,
    runs_emitCheckVmState, runs_pure] at h
  obtain ⟨_, s₀, ⟨-, hs₀⟩, types, s₀', ⟨-, hs₀'⟩, target, s₁, htarget, ⟨returned, n₁⟩, s₂,
    hreturned, ⟨object, n₂⟩, s₃, hobjects, ⟨parameters, n₃⟩, s₄, hparameters, _, _, ⟨rfl, rfl⟩,
    _, _, rfl, -, rfl⟩ := h
  rw [hs₀', hs₀] at htarget
  obtain ⟨first, lookup, hout₁, hsp₁, hfirst, hlookup⟩ : ∃ first lookup,
      s₁.out = e.out ++ (first ++ lookup) ∧ s₁.stackPointer = e.stackPointer ∧
      (if callee.funcType = .asFUNC_VIRTUAL then ChecksSlot stack e.stackPointer first
        else first = [] ∧ lookup = []) ∧
      (lookup = [] ∨ ∃ dst args, lookup =
        [.instr (.call dst (.runtime .scriptVtableLookup) args)]) := by
    rw [resolveCallee] at htarget
    by_cases hvirtual : callee.funcType = .asFUNC_VIRTUAL
    · rw [if_pos hvirtual, runs_bind] at htarget
      obtain ⟨v, u, htop, htarget⟩ := htarget
      obtain ⟨first, lookup, hout, hsp, hfirst, hlookup⟩ := resolveVirtual_checks htop htarget
      exact ⟨first, lookup, hout, hsp, by rwa [if_pos hvirtual], hlookup⟩
    · rw [if_neg hvirtual] at htarget
      simp only [getScriptFunction, runs_bind, runs_asllvmAssert, runs_pure] at htarget
      obtain ⟨_, _, ⟨-, rfl⟩, -, rfl⟩ := htarget
      exact ⟨[], [], (List.append_nil _).symm, rfl, by rw [if_neg hvirtual]; exact ⟨rfl, rfl⟩,
        .inl rfl⟩
  obtain ⟨before, hout₂, hbefore, rfl, hsp₂⟩ := returnArguments_loads hreturned
  rw [objectArguments, hobject] at hobjects
  simp only [runs_bind, runs_emitCheckNullPointer, runs_pure, Prod.mk.injEq] at hobjects
  obtain ⟨⟨v, k⟩, u, hpop, _, _, rfl, ⟨rfl, rfl⟩, rfl⟩ := hobjects
  obtain ⟨hty, hv, -, rfl⟩ := popArgument_loads hpop
  obtain ⟨structId, hstruct⟩ := toLlvmType_eq_ptr hprim hty
  obtain ⟨loads, hout₄, hloads⟩ := parameterArguments_prepares hparameters
  refine ⟨first, lookup, before ++ .instr (.load s₂.nextReg v.ty (stack.slotAddress
      s₂.stackPointer)) :: ([] ++ nullCheck v (s₂.nextReg + 1)), loads, .call (some s₄.nextReg)
      (.script target.op) (returned ++ ([v] ++ parameters)), [
      .instr (.icmp (s₄.nextReg + 1) .ne .i8 (.reg s₄.nextReg) VmState.Ok.const.op),
      .check (.reg (s₄.nextReg + 1)) (.reg s₄.nextReg)], ?_, id, ?_, hloads, hlookup, hfirst⟩
  · rw [EmitState.extend_out, EmitState.extend_out, hout₄, EmitState.extend_out,
      EmitState.extend_out, EmitState.move_out, hout₂, hout₁]
    simp [nullCheck]
  · obtain ⟨op, ty⟩ := v
    obtain rfl := hv
    obtain rfl := hstruct
    rw [← hsp₁, ← hsp₂]
    exact ⟨before, _, _, [], _, rfl, hbefore, fun piece hpiece => absurd hpiece List.not_mem_nil⟩

end ScriptCall

/-! ### The code of a system call -/

/-- Code that pops one slot. -/
def PopsOne (stack : StackFrame) (e : EmitState) (ty : Ty) (e' : EmitState) : Prop :=
  ∃ d, e' = (e.move d).extend 1 [.instr (.load e.nextReg ty (stack.slotAddress e.stackPointer))]

/-- The dwords of the return address that a system call pops before the object. -/
def ScriptFunction.returnPointerDWords (function : ScriptFunction) : ℕ :=
  if function.popsReturnFirst then asPtrSize else 0

/-- Where the arguments of a native method hold the type of its object. -/
def ScriptFunction.objectIndex (function : ScriptFunction) (types : List Ty) : ℕ :=
  if function.sysFuncIntf.callConv = .ICC_CDECL_OBJLAST then types.length - 1
  else if function.sysFuncIntf.hostReturnInMemory then 1 else 0

section SystemCall

variable {stack : StackFrame} {function : ScriptFunction} {e e' : EmitState} {types : List Ty}
  {st st' : SystemCallArguments} {i : ℕ}

theorem popParam_pops (h : Runs (popParam stack function types st) e st' e') :
    ∃ ty, PopsOne stack e ty e' ∧ st'.object = st.object := by
  simp only [popParam, runs_bind, runs_elementAt, StackFrame.runs_pop, runs_pure] at h
  obtain ⟨ty, _, ⟨-, rfl⟩, type, _, ⟨-, rfl⟩, _, _, ⟨-, rfl, rfl⟩, rfl, rfl⟩ := h
  exact ⟨ty, ⟨_, rfl⟩, rfl⟩

theorem popObject_pops {k : ℕ} (h : Runs (popObject stack types k st) e st' e') :
    ∃ ty, PopsOne stack e ty e' ∧ st'.object = some ⟨.reg e.nextReg, ty⟩ ∧ types[k]? = some ty := by
  simp only [popObject, runs_bind, runs_elementAt, StackFrame.runs_pop, runs_pure] at h
  obtain ⟨ty, _, ⟨hty, rfl⟩, _, _, ⟨-, rfl, rfl⟩, rfl, rfl⟩ := h
  exact ⟨ty, ⟨_, rfl⟩, rfl, hty⟩

theorem popSretPointer_pops (h : Runs (popSretPointer stack types st) e st' e') :
    ∃ ty, PopsOne stack e ty e' ∧ st'.object = st.object := by
  simp only [popSretPointer, runs_bind, runs_elementAt, StackFrame.runs_pop, runs_pure] at h
  obtain ⟨ty, _, ⟨-, rfl⟩, _, _, ⟨-, rfl, rfl⟩, rfl, rfl⟩ := h
  exact ⟨ty, ⟨_, rfl⟩, rfl⟩

/-- **The first argument of a method is its object.** -/
theorem systemCallArgument_object (hmethod : function.sysFuncIntf.callConv.hasObject = true)
    (h : Runs (systemCallArgument stack function types st 0) e st' e') :
    ∃ ty, PopsOne stack e ty e' ∧ st'.object = some ⟨.reg e.nextReg, ty⟩ ∧
      types[function.objectIndex types]? = some ty := by
  rw [ScriptFunction.objectIndex]
  cases hconv : function.sysFuncIntf.callConv with
  | ICC_CDECL | ICC_OTHER =>
      rw [hconv] at hmethod
      exact absurd hmethod Bool.false_ne_true
  | ICC_CDECL_OBJLAST =>
      rw [systemCallArgument_objectLast hconv, if_pos rfl] at h
      exact popObject_pops h
  | ICC_THISCALL | ICC_VIRTUAL_THISCALL | ICC_CDECL_OBJFIRST =>
      rw [systemCallArgument_objectFirst (by rw [hconv]; rfl)] at h
      simp only [reduceCtorEq, if_false]
      split at h
      · rename_i hmem
        rw [if_pos hmem]
        rw [if_pos rfl] at h
        exact popObject_pops h
      · rename_i hmem
        rw [if_neg hmem]
        simp only [if_pos, runs_bind, runs_pure] at h
        obtain ⟨st₁, _, h, rfl, rfl⟩ := h
        obtain ⟨ty, hpops, hobject⟩ := popObject_pops h
        exact ⟨ty, hpops, hobject⟩

/-- The arguments after it leave the object alone. -/
theorem systemCallArgument_later (hmethod : function.sysFuncIntf.callConv.hasObject = true)
    (hi : i ≠ 0) (h : Runs (systemCallArgument stack function types st i) e st' e') :
    ∃ ty, PopsOne stack e ty e' ∧ st'.object = st.object := by
  cases hconv : function.sysFuncIntf.callConv with
  | ICC_CDECL | ICC_OTHER =>
      rw [hconv] at hmethod
      exact absurd hmethod Bool.false_ne_true
  | ICC_CDECL_OBJLAST =>
      rw [systemCallArgument_objectLast hconv, if_neg hi] at h
      split at h
      · simp only [runs_bind, runs_pure] at h
        obtain ⟨st₁, _, h, rfl, rfl⟩ := h
        obtain ⟨ty, hpops, hobject⟩ := popSretPointer_pops h
        exact ⟨ty, hpops, hobject⟩
      · exact popParam_pops h
  | ICC_THISCALL | ICC_VIRTUAL_THISCALL | ICC_CDECL_OBJFIRST =>
      rw [systemCallArgument_objectFirst (by rw [hconv]; rfl), if_neg hi, if_neg hi] at h
      split at h
      · split at h
        · simp only [runs_bind, runs_pure] at h
          obtain ⟨st₁, _, h, rfl, rfl⟩ := h
          obtain ⟨ty, hpops, hobject⟩ := popSretPointer_pops h
          exact ⟨ty, hpops, hobject⟩
        · exact popParam_pops h
      · exact popParam_pops h

/-- The arguments of a native method hold a pointer to its object. -/
theorem objectIndex_ptr {returnType : Ty}
    (hmethod : function.sysFuncIntf.callConv.hasObject = true)
    (h : getSystemFunctionType function = .ok (returnType, types)) :
    ∃ ty, types[function.objectIndex types]? = some (.ptr ty) := by
  rw [getSystemFunctionType] at h
  obtain ⟨type, -, h⟩ := except_bind_ok.mp h
  obtain ⟨tys, -, h⟩ := except_bind_ok.mp h
  rw [ScriptFunction.objectIndex]
  cases hconv : function.sysFuncIntf.callConv with
  | ICC_CDECL | ICC_OTHER =>
      rw [hconv] at hmethod
      exact absurd hmethod Bool.false_ne_true
  | ICC_CDECL_OBJLAST =>
      rw [hconv] at h
      obtain ⟨-, rfl⟩ := Prod.mk.inj (Except.ok.inj h)
      rw [if_pos rfl, List.length_append, List.length_singleton, Nat.add_sub_cancel,
        List.getElem?_concat_length]
      exact ⟨_, rfl⟩
  | ICC_THISCALL | ICC_VIRTUAL_THISCALL | ICC_CDECL_OBJFIRST =>
      rw [hconv] at h
      obtain ⟨-, rfl⟩ := Prod.mk.inj (Except.ok.inj h)
      cases hmem : function.sysFuncIntf.hostReturnInMemory with
      | false => exact ⟨_, rfl⟩
      | true => exact ⟨_, rfl⟩

/-- The arguments after the object, by induction on the loop. -/
theorem systemCallArguments_later (hmethod : function.sysFuncIntf.callConv.hasObject = true)
    {is : List ℕ} (his : ∀ i ∈ is, i ≠ 0)
    (h : Runs (is.foldlM (systemCallArgument stack function types) st) e st' e') :
    ∃ ps, e'.out = e.out ++ ps ∧ FrameLoads stack e.nextReg ps ∧ st'.object = st.object := by
  induction is generalizing e st with
  | nil =>
      obtain ⟨rfl, rfl⟩ := runs_pure.mp h
      exact ⟨[], (List.append_nil _).symm, fun piece hpiece => absurd hpiece List.not_mem_nil, rfl⟩
  | cons i is ih =>
      obtain ⟨st₁, e₁, hfirst, hrest⟩ := runs_foldlM_cons.mp h
      obtain ⟨ty, ⟨d, rfl⟩, hobject⟩ := systemCallArgument_later hmethod (his i List.mem_cons_self) hfirst
      obtain ⟨ps, hout, hloads, hobject'⟩ := ih (fun i hi => his i (List.mem_cons_of_mem _ hi)) hrest
      rw [EmitState.extend_out, EmitState.move_out, List.append_assoc] at hout
      have hone : FrameLoads stack e.nextReg
          [.instr (.load e.nextReg ty (stack.slotAddress e.stackPointer))] :=
        fun piece hpiece => ⟨_, _, _, le_rfl, List.mem_singleton.mp hpiece⟩
      exact ⟨_, hout, hone.append hloads (Nat.le_succ _), hobject'.trans hobject⟩

/-- **The arguments of a method, loaded**: the object comes first. -/
theorem systemCallArguments_loads {returnType : Ty}
    (hmethod : function.sysFuncIntf.callConv.hasObject = true)
    (htypes : getSystemFunctionType function = .ok (returnType, types))
    (h : Runs (systemCallArguments stack function types) e st e') :
    ∃ ty after, e'.out = e.out ++
        .instr (.load e.nextReg (.ptr ty) (stack.slotAddress e.stackPointer)) :: after ∧
      FrameLoads stack (e.nextReg + 1) after ∧ st.object = some ⟨.reg e.nextReg, .ptr ty⟩ := by
  obtain ⟨pointee, hpointer⟩ := objectIndex_ptr hmethod htypes
  obtain ⟨n, hn⟩ : ∃ n, types.length = n + 1 := by
    have hlt := (List.getElem?_eq_some_iff.mp hpointer).1
    exact ⟨types.length - 1, by omega⟩
  rw [systemCallArguments, hn, List.range_succ_eq_map, runs_foldlM_cons] at h
  obtain ⟨st₁, e₁, hfirst, hrest⟩ := h
  obtain ⟨ty, ⟨d, rfl⟩, hobject, hty⟩ := systemCallArgument_object hmethod hfirst
  obtain rfl := Option.some.inj (hty.symm.trans hpointer)
  have hlater : ∀ i ∈ (List.range n).map Nat.succ, i ≠ 0 := by
    intro i hi
    obtain ⟨j, -, rfl⟩ := List.mem_map.mp hi
    exact Nat.succ_ne_zero j
  obtain ⟨after, hout, hloads, hobject'⟩ := systemCallArguments_later hmethod hlater hrest
  rw [EmitState.extend_out, EmitState.move_out, List.append_assoc, List.singleton_append] at hout
  exact ⟨pointee, after, hout, hloads, hobject'.trans hobject⟩

/-- Finding a native function calls the runtime at most. -/
theorem systemCallee_prepares {object : Option Value} {callee : Value}
    (h : Runs (systemCallee stack function object) e callee e') :
    ∃ ps, e'.out = e.out ++ ps ∧ Prepares stack ps := by
  rw [systemCallee] at h
  split at h
  · simp only [runs_bind, runs_asllvmAssert, runs_dereference, runs_createCall_ptr] at h
    obtain ⟨_, _, ⟨-, rfl⟩, object, _, ⟨-, rfl⟩, -, rfl⟩ := h
    exact ⟨_, rfl, fun piece hpiece => .inr ⟨_, _, _, List.mem_singleton.mp hpiece⟩⟩
  · obtain ⟨-, rfl⟩ := runs_pure.mp h
    exact ⟨[], (List.append_nil _).symm, fun piece hpiece => absurd hpiece List.not_mem_nil⟩

/-- The runtime is told of a native call, which comes next. -/
theorem callSystemFunction_calls {callee result : Value} {returnType : Ty}
    {args : List (Option Value)} (h : Runs (callSystemFunction callee returnType args) e result e') :
    ∃ i rest, e'.out = e.out ++ .instr (.call none (.runtime .prepareSystemCall) [callee]) ::
      .instr i :: rest ∧ ¬ i.CallsNone := by
  simp only [callSystemFunction, runs_bind, runs_createCall_void, runs_emitCheckContextState,
    runs_pure] at h
  obtain ⟨_, _, ⟨-, rfl⟩, vs, s₁, hargs, v, s₂, hcall, _, _, rfl, -, rfl⟩ := h
  obtain rfl := mapM_dereference_state hargs
  obtain ⟨i, k, rfl, hi⟩ : ∃ i k, s₂ = (e.extend 0
      [.instr (.call none (.runtime .prepareSystemCall) [callee])]).extend k [.instr i] ∧
        ¬ i.CallsNone := by
    by_cases hvoid : returnType = .void
    · rw [hvoid, runs_createCall_void] at hcall
      exact ⟨_, _, hcall.2, id⟩
    · rw [runs_createCall hvoid] at hcall
      exact ⟨_, _, hcall.2, id⟩
  refine ⟨i, contextCheck (e.nextReg + k), ?_, hi⟩
  simp [contextCheck]

/-- **The code of a native method call**: the return pointer may come first, then the arguments are
loaded, then the object is checked. -/
theorem emitSystemCall_checks (hmethod : function.sysFuncIntf.callConv.hasObject = true)
    (h : Runs (emitSystemCall stack function) e () e') : ∃ checked prepare i rest,
      e'.out = e.out ++ (checked ++ (prepare ++ .instr i :: rest)) ∧ ¬ i.CallsNone ∧
      ChecksSlot stack (e.stackPointer - function.returnPointerDWords) checked ∧
      Prepares stack prepare := by
  simp only [emitSystemCall, runs_bind, runs_lift] at h
  obtain ⟨⟨returnType, types⟩, s₀, ⟨htypes, hs₀⟩, returnPointer, s₁, hreturn, st, s₂, hloop, h⟩ := h
  rw [hs₀] at hreturn
  obtain ⟨before, hbefore, hout₁, hsp₁⟩ : ∃ before, FrameLoads stack 0 before ∧
      s₁.out = e.out ++ before ∧ s₁.stackPointer = e.stackPointer - function.returnPointerDWords := by
    rw [popReturnPointer] at hreturn
    split at hreturn
    · rename_i hfirst
      simp only [runs_bind, StackFrame.runs_pop, runs_pure] at hreturn
      obtain ⟨_, _, ⟨-, rfl, rfl⟩, -, rfl⟩ := hreturn
      rw [ScriptFunction.returnPointerDWords, ScriptFunction.popsReturnFirst, if_pos hfirst]
      exact ⟨_, fun piece hpiece => ⟨_, _, _, Nat.zero_le _, List.mem_singleton.mp hpiece⟩, rfl, rfl⟩
    · rename_i hfirst
      obtain ⟨-, rfl⟩ := runs_pure.mp hreturn
      rw [ScriptFunction.returnPointerDWords, ScriptFunction.popsReturnFirst, if_neg hfirst]
      exact ⟨[], fun piece hpiece => absurd hpiece List.not_mem_nil, (List.append_nil _).symm,
        (Int.sub_zero _).symm⟩
  obtain ⟨ty, after, hout₂, hafter, hobject⟩ := systemCallArguments_loads hmethod htypes hloop
  simp only [finishSystemCall, hobject, checkObject, runs_bind, runs_emitCheckNullPointer] at h
  obtain ⟨_, s₃, rfl, callee, s₄, hcallee, result, s₅, hcall, _, s₆, hstore, hhack⟩ := h
  obtain ⟨lookup, hout₄, hlookup⟩ := systemCallee_prepares hcallee
  obtain ⟨i, rest, hout₅, hi⟩ := callSystemFunction_calls hcall
  obtain ⟨ps, hps⟩ := emitted_of_runs hstore
  have hchecked : ChecksSlot stack (e.stackPointer - function.returnPointerDWords)
      (before ++ .instr (.load s₁.nextReg (.ptr ty) (stack.slotAddress (e.stackPointer -
        function.returnPointerDWords))) :: (after ++ nullCheck ⟨.reg s₁.nextReg, .ptr ty⟩
          s₂.nextReg)) := ⟨before, _, _, after, _, rfl, hbefore, hafter⟩
  have hprepare : Prepares stack (lookup ++ [.instr (.call none (.runtime .prepareSystemCall)
      [callee])]) := by
    refine hlookup.append fun piece hpiece => .inr ⟨_, _, _, List.mem_singleton.mp hpiece⟩
  refine ⟨_, _, i, rest ++ ps, ?_, hi, hchecked, hprepare⟩
  rw [stack.runs_uglyHack.mp hhack, hps.out, hout₅, hout₄, EmitState.extend_out, hout₂, hout₁, hsp₁]
  simp [nullCheck]

end SystemCall

/-! ### Every instruction that checks a pointer -/

/-- The dwords a call pops before it looks for its object. -/
def poppedBefore (engine : Engine) (ins : BytecodeInstruction) : ℕ :=
  match ins.bc, engine.getFunctionById ins.argInt with
  | .CALL, some callee | .CALLINTF, some callee => callee.returnAddressDWords
  | .CALLSYS, some function | .Thiscall1, some function => function.returnPointerDWords
  | _, _ => 0

/-- A call goes to a method. -/
def CallsMethod (engine : Engine) (ins : BytecodeInstruction) : Prop :=
  match ins.bc with
  | .CALL | .CALLINTF => ∃ callee objectType, engine.getFunctionById ins.argInt = some callee ∧
      callee.objectType = some objectType ∧ (engine.objectDataType objectType).isPrimitive = false
  | .CALLSYS | .Thiscall1 => ∃ function, engine.getFunctionById ins.argInt = some function ∧
      function.sysFuncIntf.callConv.hasObject = true
  | _ => True

/-- A call is virtual. -/
def CallsVirtual (engine : Engine) (ins : BytecodeInstruction) : Prop :=
  ∃ callee, engine.getFunctionById ins.argInt = some callee ∧ callee.funcType = .asFUNC_VIRTUAL

/-- When an instruction checks the right pointer; `tested` is where a call looks for its object, and
`pointee` what the pointer points at. -/
def ChecksRightly (engine : Engine) (ins : BytecodeInstruction) (pointer tested pointee : Word) :
    Prop :=
  match ins.bc with
  | .RDSPtr => pointer ≠ 0 ∧ pointee ≠ 0
  | .ADDSi => pointer ≠ 0
  | .CALL | .CALLINTF =>
      (pointer ≠ 0 → tested ≠ 0) ∧ (CallsVirtual engine ins ∨ (pointer = 0 → tested = 0))
  | .CALLSYS | .Thiscall1 => pointer = 0 ↔ tested = 0
  | _ => True

section Checks

variable {context : FunctionContext} {bytecode : List BytecodeInstruction}
  {ins : BytecodeInstruction} {T : Translation} {sp o : ℤ} {ps : List Piece} {p q : Position}
  {env : Env} {host : Host} {calls : List Request} {s : LocalState} {pointer tested : Word}

/-- A call of a script method. -/
theorem CodeOf.checksPointer_scriptCall (h : CodeOf context T bytecode ins sp ps p q)
    (hbc : ins.bc = .CALL ∨ ins.bc = .CALLINTF) (hmethod : CallsMethod T.stack.engine ins)
    (hact : Activates T env) (hhost : LooksUp host) (hloads : LoadsAccessible env ps)
    (htop : T.stack.InFrame sp 8) (hframe : T.stack.InFrame (sp - poppedBefore T.stack.engine ins) 8)
    (hs : s.position = p)
    (hpointer : Bytes.read s.mem (T.stack.byteAddress env.layout sp) 8 = pointer)
    (htested : Bytes.read s.mem (T.stack.byteAddress env.layout
      (sp - poppedBefore T.stack.engine ins)) 8 = tested) :
    ChecksPointer ins ps q env host calls s pointer ↔ (pointer ≠ 0 → tested ≠ 0) ∧
      (CallsVirtual T.stack.engine ins ∨ (pointer = 0 → tested = 0)) := by
  obtain ⟨callee, objectType, hcallee, hobject, hprim⟩ : ∃ callee objectType,
      T.stack.engine.getFunctionById ins.argInt = some callee ∧
      callee.objectType = some objectType ∧
      (T.stack.engine.objectDataType objectType).isPrimitive = false := by
    rw [CallsMethod] at hmethod
    rcases hbc with hbc | hbc <;> rwa [hbc] at hmethod
  have hpopped : poppedBefore T.stack.engine ins = callee.returnAddressDWords := by
    rcases hbc with hbc | hbc <;> rw [poppedBefore, hbc, hcallee]
  have hordinary : ins.bc.endsBlock = false ∧ ins.bc.callsFunction = true := by
    rcases hbc with hbc | hbc <;> rw [hbc] <;> exact ⟨rfl, rfl⟩
  obtain ⟨e, e', rfl, hout, rfl, hruns⟩ := h.ordinary hordinary.1
  obtain ⟨n, hcall⟩ : ∃ n, Runs (emitScriptCall T.stack callee) e n e' := by
    rcases hbc with hbc | hbc <;>
      · simp only [translateOrdinary, hbc, hcallee, runs_bind, runs_dereference, runs_pure] at hruns
        obtain ⟨_, _, ⟨hcallee, rfl⟩, n, _, hcall, -, rfl⟩ := hruns
        obtain rfl := Option.some.inj hcallee
        exact ⟨n, hcall⟩
  obtain ⟨first, lookup, checked, prepare, i, rest, hcode, hi, hchecked, hprepare, hlookup,
    hfirst⟩ := emitScriptCall_checks hobject hprim hcall
  rw [hout, List.nil_append] at hcode
  rw [hcode] at h hloads ⊢
  rw [hpopped] at hframe htested
  have hvirtual : CallsVirtual T.stack.engine ins ↔ callee.funcType = .asFUNC_VIRTUAL := by
    refine ⟨?_, fun hvirtual => ⟨callee, hcallee, hvirtual⟩⟩
    rintro ⟨callee', hcallee', hvirtual⟩
    obtain rfl := Option.some.inj (hcallee.symm.trans hcallee')
    exact hvirtual
  rw [hvirtual]
  by_cases hfunc : callee.funcType = .asFUNC_VIRTUAL
  · rw [if_pos hfunc] at hfirst
    rw [h.checksPointer_virtual hordinary.2 hi hfirst hlookup hchecked hprepare hact hhost htop hframe
      hloads hs hpointer htested]
    exact ⟨fun hne => ⟨hne, .inl hfunc⟩, And.left⟩
  · rw [if_neg hfunc] at hfirst
    obtain ⟨rfl, rfl⟩ := hfirst
    simp only [List.nil_append] at h hloads ⊢
    rw [h.checksPointer_slot hordinary.2 hi hchecked hprepare hact hframe hloads hs htested pointer]
    constructor
    · intro hiff
      exact ⟨fun hne hnull => hne (hiff.mpr hnull), .inr hiff.mp⟩
    · rintro ⟨hne, hvirtual | hnull⟩
      · exact absurd hvirtual hfunc
      · exact ⟨hnull, fun htested => by_contra fun hpointer => hne hpointer htested⟩

/-- A call of a native method. -/
theorem CodeOf.checksPointer_systemCall (h : CodeOf context T bytecode ins sp ps p q)
    (hbc : ins.bc = .CALLSYS ∨ ins.bc = .Thiscall1) (hmethod : CallsMethod T.stack.engine ins)
    (hact : Activates T env) (hloads : LoadsAccessible env ps)
    (hframe : T.stack.InFrame (sp - poppedBefore T.stack.engine ins) 8) (hs : s.position = p)
    (htested : Bytes.read s.mem (T.stack.byteAddress env.layout
      (sp - poppedBefore T.stack.engine ins)) 8 = tested) :
    ChecksPointer ins ps q env host calls s pointer ↔ (pointer = 0 ↔ tested = 0) := by
  obtain ⟨function, hfunction, hobject⟩ : ∃ function,
      T.stack.engine.getFunctionById ins.argInt = some function ∧
      function.sysFuncIntf.callConv.hasObject = true := by
    rw [CallsMethod] at hmethod
    rcases hbc with hbc | hbc <;> rwa [hbc] at hmethod
  have hpopped : poppedBefore T.stack.engine ins = function.returnPointerDWords := by
    rcases hbc with hbc | hbc <;> rw [poppedBefore, hbc, hfunction]
  have hordinary : ins.bc.endsBlock = false ∧ ins.bc.callsFunction = true := by
    rcases hbc with hbc | hbc <;> rw [hbc] <;> exact ⟨rfl, rfl⟩
  obtain ⟨e, e', rfl, hout, rfl, hruns⟩ := h.ordinary hordinary.1
  have hcall : Runs (emitSystemCall T.stack function) e () e' := by
    rcases hbc with hbc | hbc <;>
      · simp only [translateOrdinary, hbc, hfunction, runs_bind, runs_asllvmAssert,
          runs_dereference] at hruns
        obtain ⟨_, _, ⟨-, rfl⟩, _, _, ⟨hfunction, rfl⟩, hcall⟩ := hruns
        obtain rfl := Option.some.inj hfunction
        exact hcall
  obtain ⟨checked, prepare, i, rest, hcode, hi, hchecked, hprepare⟩ :=
    emitSystemCall_checks hobject hcall
  rw [hout, List.nil_append] at hcode
  rw [hcode] at h hloads ⊢
  rw [hpopped] at hframe htested
  exact h.checksPointer_slot hordinary.2 hi hchecked hprepare hact hframe hloads hs htested pointer

/-- **When the instructions check their pointers as the AngelScript VM does**: a call iff it finds a
null object where it looks for it just when the object is null, `RDSPtr` iff it reads a pointer that
is not null, `ADDSi` iff its address is not null, and the others always. -/
theorem nullChecks_iff (hcode : CodeOf context T bytecode ins sp ps p q)
    (ho : checkedOffset ins sp = some o) (hmethod : CallsMethod T.stack.engine ins)
    (hact : Activates T env) (hhost : LooksUp host) (hloads : LoadsAccessible env ps)
    (hframe : T.stack.InFrame o 8)
    (hobject : ins.bc.callsFunction = true →
      T.stack.InFrame (sp - poppedBefore T.stack.engine ins) 8)
    (calls : List Request) {s : LocalState} (hs : s.position = p) {pointer : Word}
    (hpointer : Bytes.read s.mem (T.stack.byteAddress env.layout o) 8 = pointer) :
    ChecksPointer ins ps q env host calls s pointer ↔
      ChecksRightly T.stack.engine ins pointer
        (Bytes.read s.mem (T.stack.byteAddress env.layout
          (sp - poppedBefore T.stack.engine ins)) 8)
        (Bytes.read s.mem pointer.toNat 8) := by
  rw [ChecksRightly]
  split
  case h_1 hbc =>
    obtain rfl : sp = o := by rwa [checkedOffset, hbc, Option.some.injEq] at ho
    exact hcode.checksPointer_rdsPtr hbc hact hframe hs hpointer
  case h_2 hbc =>
    obtain rfl : sp = o := by rwa [checkedOffset, hbc, Option.some.injEq] at ho
    exact hcode.checksPointer_addsi hbc hact hframe hs pointer
  case h_3 hbc | h_4 hbc =>
    obtain rfl : sp = o := by rwa [checkedOffset, hbc, Option.some.injEq] at ho
    exact hcode.checksPointer_scriptCall (by simp [hbc]) hmethod hact hhost hloads hframe
      (hobject (by rw [hbc]; rfl)) hs hpointer rfl
  case h_5 hbc | h_6 hbc =>
    obtain rfl : sp = o := by rwa [checkedOffset, hbc, Option.some.injEq] at ho
    exact hcode.checksPointer_systemCall (by simp [hbc]) hmethod hact hloads
      (hobject (by rw [hbc]; rfl)) hs rfl
  case h_7 hrds hadds hcall hcallintf hcallsys hthiscall =>
    refine iff_of_true ?_ trivial
    have hbc : ins.bc = .CHKREF ∨ ins.bc = .ChkNullV ∨ ins.bc = .LoadThisR ∨
        ins.bc = .LoadRObjR := by
      rw [checkedOffset] at ho
      split at ho <;> simp_all
    rw [← hpointer]
    exact hcode.checksPointer_variable hbc ho hact hframe hs

end Checks

/-! ### A pointer variable, and a method call -/

/-- The first pointer variable is pushed. -/
def pointerPush : BytecodeInstruction := ⟨[0x20000], ⟨.PshVPtr, 1, 2, by decide⟩, 0⟩

/-- The pointer on top of the stack is checked. -/
def pointerChkref : BytecodeInstruction := ⟨[0], ⟨.CHKREF, 1, 0, by decide⟩, 1⟩

/-- The address on top of the stack is moved to its first member. -/
def pointerAddsi : BytecodeInstruction := ⟨[0, 0], ⟨.ADDSi, 2, 0, by decide⟩, 1⟩

/-- An instruction on a pointer variable that was pushed. -/
def pointerBytecode (ins : BytecodeInstruction) : List BytecodeInstruction := [
  pointerPush,
  ins,
  popPtrAt ins.next,
  retAt (ins.next + 1)]

/-- The code of a check of a pointer variable that was pushed. -/
theorem exists_codeOf_pointer {check : BytecodeInstruction}
    (hcheck : check.offset = 1 ∧ 0 < check.info.size) {T : Translation}
    (hT : translateBytecode loopContext (pointerBytecode check) = .ok T) :
    ∃ ps p q, T.stack.totalSpace = 8 ∧
      CodeOf loopContext T (pointerBytecode check) check 6 ps p q := by
  have hwalked : Walked ([pointerPush] ++ check :: [popPtrAt check.next, retAt (check.next + 1)]) := by
    simp [pointerPush, popPtrAt, retAt, WalkedFrom, BytecodeInstruction.next, hcheck]
  obtain ⟨ps, p, q, hcode⟩ := exists_codeOf_at [pointerPush] _ hwalked hT
  have htotal : T.stack.totalSpace = 8 := by
    rw [hcode.stack_eq]
    rfl
  exact ⟨ps, p, q, htotal, hcode⟩

/-- The slot on top of the stack. -/
theorem pointer_inFrame {stack : StackFrame} (htotal : stack.totalSpace = 8) :
    stack.InFrame 6 8 :=
  StackFrame.inFrame_storage (by decide) (by omega) (by decide)

theorem translateBytecode_pointer :
    (∃ T, translateBytecode loopContext (pointerBytecode pointerChkref) = .ok T ∧
      T.stack.parameters = []) ∧
    ∃ T, translateBytecode loopContext (pointerBytecode pointerAddsi) = .ok T ∧
      T.stack.parameters = [] :=
  ⟨exists_ok_of_map (by decide +kernel), exists_ok_of_map (by decide +kernel)⟩

/-- The check loads the slot on top of the stack. -/
theorem chkref_loadsAccessible {T : Translation} {env : Env} {ps : List Piece} {p q : Position}
    (hcode : CodeOf loopContext T (pointerBytecode pointerChkref) pointerChkref 6 ps p q)
    (hact : Activates T env) (hframe : T.stack.InFrame 6 8) : LoadsAccessible env ps := by
  obtain ⟨e, e', hsp, hout, rfl, hruns⟩ := hcode.ordinary rfl
  have hbc : pointerChkref.bc = .CHKREF := rfl
  simp [translateOrdinary, hbc] at hruns
  rw [hruns.2, EmitState.extend_out, hout, hsp]
  intro r ty ptr hmem
  obtain ⟨rfl, rfl, rfl⟩ : r = e.nextReg ∧ ty = .pvoid ∧ ptr = T.stack.slotAddress 6 := by
    simpa using hmem
  exact hframe.accessible hact

/-- `Foo Bar::f()`, a virtual method that returns an object on the stack. -/
def virtualMethod : ScriptFunction :=
  { ScriptFunction.free 2 (.objectOf 2) [] 0 with
    funcType := .asFUNC_VIRTUAL
    doesReturnOnStack := true
    objectType := some (.bare 1)
    vfTableIdx := 0 }

/-- A function that may call it. -/
def virtualContext : FunctionContext where
  engine := .ofFunctions [virtualMethod]
  config := ⟨false, true⟩
  scriptFunction := .free 1 (.primitive .ttVoid) [] 4

/-- The call of the method. -/
def virtualCall : BytecodeInstruction := ⟨[0, 2], ⟨.CALLINTF, 2, 0xFFFF, by decide⟩, 2⟩

/-- The addresses of the result and of the object are pushed, and the method is called. -/
def virtualBytecode : List BytecodeInstruction := [
  ⟨[0x40000], ⟨.PshVPtr, 1, 2, by decide⟩, 0⟩,
  ⟨[0x20000], ⟨.PshVPtr, 1, 2, by decide⟩, 1⟩,
  virtualCall,
  retAt 4]

theorem translateBytecode_virtual : ∃ T, translateBytecode virtualContext virtualBytecode = .ok T ∧
    T.stack.parameters = [] := exists_ok_of_map (by decide +kernel)

theorem exists_codeOf_virtual {T : Translation}
    (hT : translateBytecode virtualContext virtualBytecode = .ok T) :
    ∃ ps p q, T.stack.toFunctionContext = virtualContext ∧
      CodeOf virtualContext T virtualBytecode virtualCall 8 ps p q := by
  have hwalked : Walked ([⟨[0x40000], ⟨.PshVPtr, 1, 2, by decide⟩, 0⟩,
      ⟨[0x20000], ⟨.PshVPtr, 1, 2, by decide⟩, 1⟩] ++ virtualCall :: [retAt 4]) := by
    simp [virtualCall, retAt, WalkedFrom, BytecodeInstruction.next]
  obtain ⟨ps, p, q, hcode⟩ := exists_codeOf_at _ _ hwalked hT
  exact ⟨ps, p, q, hcode.stack_eq, hcode⟩

/-- The loads of the call, which are those of the two pointers on the stack. -/
theorem emitScriptCall_virtual (n : ℕ) (retPointer : Option ℕ) : ∃ ps,
    Runs (emitScriptCall ⟨virtualContext, []⟩ virtualMethod) ⟨8, n, retPointer, []⟩ 4
      ⟨4, n + 8, retPointer, ps⟩ ∧
    ∀ r ty ptr, .instr (.load r ty ptr) ∈ ps →
      ty.storeSize = 8 ∧ (ptr = .frame .storage 0 ∨ ptr = .frame .storage 8) := by
  refine ⟨_, rfl, fun r ty ptr hmem => ?_⟩
  simp at hmem
  rcases hmem with ⟨-, rfl, rfl⟩ | ⟨-, rfl, rfl⟩ | ⟨-, rfl, rfl⟩
  · exact ⟨rfl, .inl rfl⟩
  · exact ⟨rfl, .inl rfl⟩
  · exact ⟨rfl, .inr rfl⟩

/-- The loads of the call stay inside the storage. -/
theorem virtual_loadsAccessible {T : Translation} {env : Env} {ps : List Piece} {p q : Position}
    (hcode : CodeOf virtualContext T virtualBytecode virtualCall 8 ps p q) (hact : Activates T env)
    (hparameters : T.stack.parameters = []) : LoadsAccessible env ps := by
  have hstack : T.stack = ⟨virtualContext, []⟩ := by
    rw [← hparameters, ← hcode.stack_eq]
  obtain ⟨⟨_, n, retPointer, _⟩, e', rfl, rfl, rfl, hruns⟩ := hcode.ordinary rfl
  have hbc : virtualCall.bc = .CALLINTF := rfl
  have hfunction : (Engine.ofFunctions [virtualMethod]).getFunctionById virtualCall.argInt =
      some virtualMethod := rfl
  rw [hstack] at hruns
  obtain ⟨ps, hcall, hloads⟩ := emitScriptCall_virtual n retPointer
  simp only [translateOrdinary, hbc, runs_bind, runs_dereference, runs_pure] at hruns
  obtain ⟨_, _, ⟨hcallee, rfl⟩, n', _, hcall', -, rfl⟩ := hruns
  obtain rfl := Option.some.inj (hfunction.symm.trans hcallee)
  obtain ⟨-, rfl⟩ := hcall.det hcall'
  intro r ty ptr hmem
  obtain ⟨hsize, hptr⟩ := hloads r ty ptr hmem
  have hstorage : env.layout.size .storage = 32 := by rw [hact.storage, hstack]; rfl
  rcases hptr with rfl | rfl <;> simp [Env.accessible, hstorage, hsize]

theorem read_ones (a : ℕ) : Bytes.read (fun _ => 1) a 8 = 0x0101010101010101 := by
  simp only [Bytes.read]
  decide

/-- The check of a null pointer, and a call of a virtual method on a null object and on another one,
in particular. -/
theorem nullChecks_iff_method :
    (∃ T ps p q env, Activates T env ∧
      CodeOf loopContext T (pointerBytecode pointerChkref) pointerChkref 6 ps p q ∧
        ChecksPointer pointerChkref ps q env .idle [] ⟨p, fun _ => 0, fun _ => 0, none⟩ 0) ∧
    ∃ T ps p q env, Activates T env ∧ CodeOf virtualContext T virtualBytecode virtualCall 8 ps p q ∧
      CallsMethod T.stack.engine virtualCall ∧ LooksUp .idle ∧
        ChecksPointer virtualCall ps q env .idle [] ⟨p, fun _ => 0, fun _ => 0, none⟩ 0 ∧
        ChecksPointer virtualCall ps q env .idle [] ⟨p, fun _ => 0, fun _ => 1, none⟩
          0x0101010101010101 := by
  constructor
  · obtain ⟨T, hT, hparameters⟩ := translateBytecode_pointer.1
    obtain ⟨ps, p, q, htotal, hcode⟩ := exists_codeOf_pointer ⟨rfl, by decide⟩ hT
    have hact := T.activates_env (by omega) [] (by rw [hparameters]; decide)
    have hframe := pointer_inFrame htotal
    have hloads := chkref_loadsAccessible hcode hact hframe
    exact ⟨T, ps, p, q, _, hact, hcode, (nullChecks_iff hcode rfl trivial hact (fun _ _ _ => rfl) hloads
      hframe (fun h => absurd h Bool.false_ne_true) [] rfl (by simp [Bytes.read])).mpr trivial⟩
  · obtain ⟨T, hT, hparameters⟩ := translateBytecode_virtual
    obtain ⟨ps, p, q, hstack, hcode⟩ := exists_codeOf_virtual hT
    have htotal : T.stack.totalSpace = 8 := by rw [hstack]; rfl
    have hact := T.activates_env (by omega) [] (by rw [hparameters]; decide)
    have hmethod : CallsMethod T.stack.engine virtualCall := by
      rw [hstack]
      exact ⟨virtualMethod, .bare 1, rfl, rfl, rfl⟩
    have hvirtual : CallsVirtual T.stack.engine virtualCall := by
      rw [hstack]
      exact ⟨virtualMethod, rfl, rfl⟩
    have hpopped : poppedBefore T.stack.engine virtualCall = 2 := by
      rw [hstack]
      rfl
    have hframe : T.stack.InFrame 8 8 :=
      StackFrame.inFrame_storage (by decide) (by omega) (by decide)
    have hobject : T.stack.InFrame (8 - poppedBefore T.stack.engine virtualCall) 8 := by
      rw [hpopped]
      exact pointer_inFrame htotal
    have hloads := virtual_loadsAccessible hcode hact hparameters
    refine ⟨T, ps, p, q, _, hact, hcode, hmethod, fun _ _ _ => rfl, ?_, ?_⟩
    · exact (nullChecks_iff hcode rfl hmethod hact (fun _ _ _ => rfl) hloads hframe (fun _ => hobject) []
        rfl (by simp [Bytes.read])).mpr ⟨fun h => absurd rfl h, .inl hvirtual⟩
    · have hpointer := read_ones (T.stack.byteAddress (T.env (by omega) []).layout 8)
      refine (nullChecks_iff (s := ⟨p, fun _ => 0, fun _ => 1, none⟩) hcode rfl hmethod hact
        (fun _ _ _ => rfl) hloads hframe (fun _ => hobject) [] rfl hpointer).mpr
          ⟨fun _ => ?_, .inl hvirtual⟩
      rw [read_ones]
      decide

/-- **A null address on top of the stack goes unnoticed**: pointer variables start as null. -/
theorem nullChecks_not_addsi : ∃ T ps p q env, Activates T env ∧
    translateBytecode loopContext (pointerBytecode pointerAddsi) = .ok T ∧
    CodeOf loopContext T (pointerBytecode pointerAddsi) pointerAddsi 6 ps p q ∧
      Bytes.read (fun _ => 0) (T.stack.byteAddress env.layout 6) 8 = 0 ∧
      ¬ ChecksPointer pointerAddsi ps q env (fun _ => (0, fun _ => 0)) []
        ⟨p, fun _ => 0, fun _ => 0, none⟩ 0 := by
  obtain ⟨T, hT, hparameters⟩ := translateBytecode_pointer.2
  obtain ⟨ps, p, q, htotal, hcode⟩ := exists_codeOf_pointer ⟨rfl, by decide⟩ hT
  have hact := T.activates_env (by omega) [] (by rw [hparameters]; decide)
  refine ⟨T, ps, p, q, _, hact, hT, hcode, ?_, ?_⟩
  · simp [Bytes.read]
  · intro hchecks
    exact (hcode.checksPointer_addsi rfl hact (pointer_inFrame htotal) rfl 0).mp hchecks rfl

end Asllvm
