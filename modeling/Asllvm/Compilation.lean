import Asllvm.FactoryStubs
import Asllvm.WholeCalls

/-!
# Functions over Integers Are Compiled

The translation of a function over integers succeeds: no assertion fails, no label or parameter is
missing. Together with the simulation, such a function is compiled, and what is compiled does what the
AngelScript VM does.

* `StackNeutral` — what AngelScript's table says of the instructions on integers.

## Main results

* `translateOrdinary_succeeds` — every instruction on integers is translated.
* `integerFunction_translates` — so is every function over integers.
-/

open StateExcept

namespace Asllvm

/-- The table of AngelScript says of the instruction that it leaves the stack as it is. -/
def StackNeutral (ins : BytecodeInstruction) : Prop :=
  ins.info.stackInc = 0 ∨ ins.info.stackInc = 0xFFFF

section Instructions

variable {stack : StackFrame} {jumps : JumpTables} {ins : BytecodeInstruction} {e : EmitState}

/-- **An instruction on integers is translated** if its variables can be addressed. -/
theorem translateOrdinary_succeeds (hfragment : ins.bc.inFragment = true)
    (hordinary : ins.bc.endsBlock = false) (haddress : ∀ v ∈ ins.accesses, stack.Addressable v.1)
    (e : EmitState) : ∃ e', Runs (translateOrdinary stack ins) e () e' := by
  rcases Opcode.inFragment_cases hfragment with hop | hmove | hunary | hwidth | hcomparison | htest |
    hidle | hjump | hjmp | hret
  · obtain ⟨⟨op, ty⟩, hop⟩ := Option.isSome_iff_exists.mp hop
    rw [accesses_integerOp hop] at haddress
    rw [translateOrdinary_integerOp hop]
    cases himmediate : ins.bc.hasImmediate with
    | true => simp_all [emitBinopWith, emitBinopOf]
    | false => simp_all [emitBinop, emitBinopWith, emitBinopOf]
  · obtain ⟨⟨ty, source, destination⟩, hmove⟩ := Option.isSome_iff_exists.mp hmove
    rw [accesses_move hmove] at haddress
    unfold Opcode.move at hmove
    split at hmove <;> cases hmove <;> rename_i hbc <;>
      simp_all [translateOrdinary, copyVariable, BytecodeInstruction.movedVariable]
  · obtain ⟨⟨op, ty⟩, hunary⟩ := Option.isSome_iff_exists.mp hunary
    rw [accesses_unaryOp hunary] at haddress
    unfold Opcode.unaryOp at hunary
    split at hunary <;> cases hunary <;> rename_i hbc <;>
      simp_all [translateOrdinary, emitNeg, emitBitNot, incrementVariable]
  · obtain ⟨op, src, dst, hconversion⟩ : ∃ op src dst, ins.bc.conversion = some (op, src, dst) := by
      unfold Opcode.isWidthConversion at hwidth
      split at hwidth <;> rename_i hbc <;> simp_all [Opcode.conversion]
    rw [accesses_conversion hwidth hconversion] at haddress
    unfold Opcode.isWidthConversion at hwidth
    split at hwidth <;> rename_i hbc
    · rw [hbc] at hconversion
      cases hconversion
      simp_all [translateOrdinary, emitCast, Ty.is64]
    · rw [hbc] at hconversion
      cases hconversion
      simp_all [translateOrdinary, emitCast, Ty.is64]
    · rw [hbc] at hconversion
      cases hconversion
      simp_all [translateOrdinary, emitCast, Ty.is64]
    · exact Bool.noConfusion hwidth
  · obtain ⟨ty, isSigned, immediate, hcomparison, -, hint⟩ :=
      Opcode.isIntegerComparison_iff.mp hcomparison
    rw [accesses_comparison hcomparison] at haddress
    unfold Opcode.comparison at hcomparison
    split at hcomparison <;> cases hcomparison <;> rename_i hbc <;>
      simp_all [translateOrdinary, compareVariables, emitCompare, createOrder, Ty.isFloatingPoint]
  · obtain ⟨pred, htest⟩ := Option.isSome_iff_exists.mp htest
    unfold Opcode.test at htest
    split at htest <;> cases htest <;> rename_i hbc <;>
      simp [translateOrdinary, hbc, emitCondition]
  · unfold Opcode.isIdle at hidle
    split at hidle <;> rename_i hbc
    · simp [translateOrdinary, hbc]
    · simp [translateOrdinary, hbc]
    · exact Bool.noConfusion hidle
  · rw [Opcode.endsBlock, hjump, Bool.or_true] at hordinary
    exact Bool.noConfusion hordinary
  · rw [hjmp] at hordinary
    exact Bool.noConfusion hordinary
  · rw [hret] at hordinary
    exact Bool.noConfusion hordinary

/-- An instruction on integers leaves the stack as it is. -/
theorem stackEffect_of_fragment {context : FunctionContext} (hfragment : ins.bc.inFragment = true)
    (depth : ℤ) : stackEffect context ins depth = depth := by
  rw [stackEffect]
  split <;> rename_i hbc <;> first | rfl | (rw [hbc] at hfragment; exact Bool.noConfusion hfragment)

/-- **A `RET` is translated** if the type it returns is known to LLVM. -/
theorem translateRet_succeeds
    (hreturned : ∃ ty, toLlvmType stack.scriptFunction.returnType = .ok ty) (e : EmitState) :
    ∃ term e', Runs (translateRet stack ins) e term e' := by
  obtain ⟨ty, hty⟩ := hreturned
  rw [translateRet]
  dsimp only
  split
  · simp only [runs_bind, runs_lift]
    cases hobject : (stack.scriptFunction.returnType.isObjectHandle ||
        stack.scriptFunction.returnType.isObject) with
    | true =>
        simp only [if_true, runs_bind, runs_createLoad, runs_createStore, runs_modify, runs_pure]
        exact ⟨_, _, ty, e, ⟨hty, rfl⟩, _, _, ⟨rfl, rfl⟩, (), _, rfl, (), _, rfl, rfl, rfl⟩
    | false =>
        simp only [Bool.false_eq_true, if_false, runs_bind, runs_loadValueRegisterValue,
          runs_createStore, runs_modify, runs_pure]
        exact ⟨_, _, ty, e, ⟨hty, rfl⟩, _, _, ⟨rfl, rfl⟩, (), _, rfl, (), _, rfl, rfl, rfl⟩
  · simp only [runs_bind, runs_modify, runs_pure]
    exact ⟨_, _, (), _, rfl, rfl, rfl⟩

/-- **Every instruction on integers is translated**, if its variables can be addressed and its targets
have labels. -/
theorem translateOpcode_succeeds (hfragment : ins.bc.inFragment = true)
    (hreturned : ∃ ty, toLlvmType stack.scriptFunction.returnType = .ok ty)
    (haddress : ∀ v ∈ ins.accesses, stack.Addressable v.1)
    (hlabels : ∀ o ∈ ins.branchTargets, jumps.HasLabel o) (sp : ℤ) :
    Translates stack jumps ins sp sp := by
  rintro e rfl
  obtain ⟨t, e', hruns⟩ : ∃ t e', Runs (translateOpcode stack jumps ins) e t e' := by
    by_cases hret : ins.bc = .RET
    · obtain ⟨term, e', hruns⟩ := @translateRet_succeeds stack ins hreturned e
      simp only [translateOpcode, hret]
      exact ⟨_, e', runs_bind.mpr ⟨term, e', hruns, runs_pure.mpr ⟨rfl, rfl⟩⟩⟩
    by_cases hjmp : ins.bc = .JMP
    · rw [BytecodeInstruction.branchTargets, if_pos hjmp] at hlabels
      obtain ⟨b, hb⟩ := Option.isSome_iff_exists.mp (hlabels _ (List.mem_singleton_self _))
      simp only [translateOpcode, hjmp, getBranchTarget, runs_bind, runs_atOrThrow, runs_pure]
      exact ⟨_, e, b, e, ⟨hb, rfl⟩, rfl, rfl⟩
    by_cases hcond : ins.bc.isConditionalJump = true
    · obtain ⟨⟨pred, type⟩, htest⟩ := Opcode.isConditionalJump_iff.mp hcond
      rw [BytecodeInstruction.branchTargets_of_conditional hcond] at hlabels
      obtain ⟨b, hb⟩ := Option.isSome_iff_exists.mp (hlabels ins.target (by simp))
      obtain ⟨fail, hfail⟩ := Option.isSome_iff_exists.mp (hlabels (ins.offset + 2) (by simp))
      rw [translateOpcode_of_jumpTest htest]
      simp only [emitConditionalBranch, getBranchTarget, getConditionalFailBranchTarget, runs_bind,
        runs_loadValueRegisterValue, runs_createICmp, runs_atOrThrow, runs_pure]
      exact ⟨_, _, _, _, ⟨_, _, ⟨rfl, rfl⟩, _, _, ⟨rfl, rfl⟩, b, _, ⟨hb, rfl⟩, fail, _, ⟨hfail, rfl⟩,
        rfl, rfl⟩, rfl, rfl⟩
    · have hordinary := Opcode.endsBlock_of_fragment hfragment hret hjmp hcond
      obtain ⟨e', hruns⟩ := @translateOrdinary_succeeds stack ins hfragment hordinary haddress e
      rw [translateOpcode_of_ordinary stack jumps ins hordinary]
      exact ⟨none, e', runs_bind.mpr ⟨(), e', hruns, runs_pure.mpr ⟨rfl, rfl⟩⟩⟩
  exact ⟨t, e', hruns, (translateOpcode_stackPointer hruns).trans (stackEffect_of_fragment hfragment _)⟩

/-- The check of the table after an instruction. -/
theorem stackNeutral_check {st : BuilderState} {sp : ℤ} (hneutral : StackNeutral ins)
    (hst : st.emit.stackPointer = sp) : ∃ st' : BuilderState,
      Runs (if ins.info.stackInc ≠ 0xFFFF then emitCode .Implementation do
        asllvmAssert stack.config ((← StackFrame.currentStackPointer) - sp = ins.info.stackInc)
        else pure ()) st () st' ∧ st'.emit.stackPointer = sp := by
  split
  · rename_i hne
    have hinc : ins.info.stackInc = 0 := hneutral.resolve_right hne
    simp only [runs_emitCode, runs_bind, StackFrame.runs_currentStackPointer, runs_asllvmAssert,
      decide_eq_true_eq]
    exact ⟨_, ⟨_, ⟨_, _, ⟨rfl, rfl⟩, fun _ => by rw [hinc]; exact Int.sub_eq_zero.mpr hst, rfl⟩, rfl⟩, hst⟩
  · exact ⟨st, runs_pure.mpr ⟨rfl, rfl⟩, hst⟩

/-- **An instruction that leaves an empty stack empty is accepted**, with a label or without. -/
theorem Translates.accepted_empty {st : BuilderState}
    (h : Translates stack jumps ins stack.variableSpace stack.variableSpace)
    (hneutral : StackNeutral ins) (hst : st.emit.stackPointer = stack.variableSpace) :
    ∃ st', Runs (translateInstruction stack jumps ins) st () st' ∧
      st'.emit.stackPointer = stack.variableSpace := by
  have hspace := stack.variableSpace_lt_totalSpace
  have hbounds : stack.variableSpace ≤ st.emit.stackPointer ∧
      st.emit.stackPointer ≤ stack.totalSpace := by
    omega
  cases hlabel : jumps.jumpMap ins.offset with
  | none =>
      refine h.accepted hlabel ⟨le_rfl, by omega⟩ (fun hne => ?_) hst
      rw [hneutral.resolve_right hne]
      exact Int.sub_self _
  | some b =>
      obtain ⟨t, e, hcode, he⟩ := h { st.emit with out := [] } hst
      have hcheck (cfg : Cfg) := @stackNeutral_check stack ins ⟨e, cfg⟩ stack.variableSpace hneutral he
      rw [← hst] at hcheck
      simp only [translateInstruction, hlabel, runs_bind, runs_emitCode, runs_modifyCfg,
        StackFrame.runs_currentStackPointer, StackFrame.runs_checkStackPointerBounds,
        runs_asllvmAssert, StackFrame.runs_emptyStack]
      -- the stack is empty where the block of the label is entered
      cases t with
      | none =>
          obtain ⟨st', hend, hst'⟩ := hcheck (e.out.foldl (Cfg.place .Implementation)
            ((st.cfg.switchToBlock b).append (.marker ins.offset)))
          exact ⟨st', ⟨_, _, ⟨_, ⟨rfl, rfl⟩, rfl⟩, (), _, ⟨_, ⟨_, _, ⟨rfl, rfl⟩,
            fun _ => decide_eq_true hst, rfl⟩, rfl⟩, (), _, rfl, (), _, rfl, (), _,
            ⟨_, ⟨fun _ => hbounds, rfl⟩, rfl⟩, none, _, ⟨e, hcode, rfl⟩, hend⟩,
            hst'.trans hst⟩
      | some term =>
          obtain ⟨st', hend, hst'⟩ := hcheck ((e.out.foldl (Cfg.place .Implementation)
            ((st.cfg.switchToBlock b).append (.marker ins.offset))).append (.term term))
          exact ⟨st', ⟨_, _, ⟨_, ⟨rfl, rfl⟩, rfl⟩, (), _, ⟨_, ⟨_, _, ⟨rfl, rfl⟩,
            fun _ => decide_eq_true hst, rfl⟩, rfl⟩, (), _, rfl, (), _, rfl, (), _,
            ⟨_, ⟨fun _ => hbounds, rfl⟩, rfl⟩, some term, _, ⟨e, hcode, rfl⟩,
            runs_bind.mpr ⟨(), _, runs_modifyCfg.mpr rfl, hend⟩⟩, hst'.trans hst⟩

end Instructions

/-! ### Whole functions -/

section Functions

variable {context : FunctionContext} {bytecode : List BytecodeInstruction}

/-- A variable of a function can be addressed. -/
theorem FunctionContext.HasVariable.addressable {stack : StackFrame} {e e' : EmitState} {o : ℤ}
    {ty : Ty}
    (h : context.HasVariable o ty) (hsupported : context.scriptFunction.Supported context.engine)
    (hlocal : Runs (emitAllocateLocalStructures context) e stack e') : stack.Addressable o := by
  obtain rfl := (emitAllocateLocalStructures_stack hlocal).1
  rw [HasVariable] at h
  rw [StackFrame.Addressable]
  split at h
  · obtain ⟨k, slot, hslot, hty, rfl⟩ := h
    rw [if_pos (by assumption), emitAllocateLocalStructures_lookup hsupported hlocal hslot hty]
    rfl
  · have hspace := stack.variableSpace_lt_totalSpace
    rw [if_neg (by assumption)]
    omega

/-- **A function over integers is translated.** -/
theorem integerFunction_translates (h : IntegerFunction context bytecode)
    (hneutral : ∀ ins ∈ bytecode, StackNeutral ins) :
    ∃ T, translateBytecode context bytecode = .ok T := by
  obtain ⟨stack, tys, -, hlocal⟩ :=
    @emitAllocateLocalStructures_runs context BuilderState.new.emit h.supported h.returned
  obtain rfl := (emitAllocateLocalStructures_stack hlocal).1
  obtain ⟨jumps, hjumps⟩ : ∃ jumps, preprocess bytecode = jumps := ⟨_, rfl⟩
  have htranslates : ∀ ins ∈ bytecode,
      Translates stack jumps ins stack.variableSpace stack.variableSpace := by
    intro ins hins
    refine translateOpcode_succeeds (h.fragment ins hins) h.returned (fun v hv => ?_) (fun o ho => ?_) _
    · exact (h.accesses ins hins v hv).addressable h.supported hlocal
    · exact hjumps ▸ preprocess_hasLabel_of_mem hins ho
  have hscan : ∀ (instructions : List BytecodeInstruction) (st : BuilderState),
      instructions ⊆ bytecode → st.emit.stackPointer = stack.variableSpace →
      ∃ st', Runs (instructions.forM (translateInstruction stack jumps)) st () st' ∧
        st'.emit.stackPointer = stack.variableSpace := by
    intro instructions
    induction instructions with
    | nil => exact fun st _ hst => ⟨st, runs_forM_nil.mpr rfl, hst⟩
    | cons ins rest ih =>
        intro st hsubset hst
        obtain ⟨hins, hrest⟩ := List.cons_subset.mp hsubset
        obtain ⟨st₁, hfirst, hst₁⟩ := (htranslates ins hins).accepted_empty (hneutral ins hins) hst
        obtain ⟨st₂, hothers, hst₂⟩ := ih st₁ hrest hst₁
        exact ⟨st₂, runs_forM_cons.mpr ⟨st₁, hfirst, hothers⟩, hst₂⟩
  obtain ⟨st, hbody, hst⟩ := hscan bytecode (.afterLocals ({ BuilderState.new.emit with
    stackPointer := stack.variableSpace }.extend 0 (prologuePieces stack.toFunctionContext tys)))
    (List.Subset.refl _) rfl
  have hfinal : Runs stack.finalize { st.emit with out := [] } () { st.emit with out := [] } := by
    simp only [StackFrame.finalize, runs_bind, StackFrame.runs_emptyStack, runs_asllvmAssert]
    exact ⟨_, _, ⟨rfl, rfl⟩, fun _ => decide_eq_true hst, rfl⟩
  have hbuild : Runs (buildImplementation stack.toFunctionContext jumps bytecode) .new stack
      ⟨{ st.emit with out := [] }, st.cfg⟩ :=
    runs_bind.mpr ⟨stack, _, runs_emitCode.mpr ⟨_, hlocal, rfl⟩, runs_bind.mpr ⟨(), st, hbody,
      runs_bind.mpr ⟨(), _, runs_emitCode.mpr ⟨_, hfinal, rfl⟩, runs_pure.mpr ⟨rfl, rfl⟩⟩⟩⟩
  refine ⟨⟨stack, jumps, { st.emit with out := [] }, st.cfg⟩, ?_⟩
  rw [translateBytecode, hjumps]
  exact except_bind_ok.mpr ⟨_, hbuild, rfl⟩

/-- A loop that is left by one jump and closed by another one, in particular. -/
theorem integerFunction_translates_digits :
    ∃ T, translateBytecode digitsContext digitsBytecode = .ok T := by
  have hneutral : ∀ ins ∈ digitsBytecode, ins.info.stackInc = 0 ∨ ins.info.stackInc = 0xFFFF := by decide
  exact integerFunction_translates digits_integerFunction hneutral

end Functions

end Asllvm
