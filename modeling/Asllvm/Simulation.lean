import Asllvm.InstructionCode
import Asllvm.Remaining
import Asllvm.ReturnValues

/-!
# A Function Simulates the Interpreter

A function over integers, translated, does what the AngelScript VM does with its bytecode, instruction
after instruction, for any number of them. The markers in the code are the states at which an activation
begins an instruction; between two of them the code of one instruction is run through, and control
passes on to the next one.

The simulation holds as long as LLVM defines the operations of the instructions (`Machine.DefinedAt`).
Where it does not, the activation comes to nothing that is defined, while the VM raises an exception
or goes on.

* `GetsPast` — the steps of an activation past the beginnings of some instructions.
* `IntegerFunction` — the functions that the simulation is about.
* `Corresponds` — the activation is at the code of the instruction the VM is at, and agrees with it.
* `FollowsVm` — what is compared after a number of instructions.

## Main results

* `Corresponds.step`, `Corresponds.stops` — one instruction, where LLVM defines its operation and where
  not.
* `simulation`, `exists_corresponds_entry` — the lockstep simulation, and where it starts.
* `followsVm_iff` — a function does what the VM does exactly if LLVM defines the operations.
-/

open StateExcept

namespace Asllvm

/-! ### Steps of an activation -/

/-- A step of an activation that stays inside it. -/
def LocalState.goOn (env : Env) (s : LocalState) : Option LocalState :=
  match s.step env with
  | .next s' => some s'
  | _ => none

/-- The activation begins an instruction. -/
def LocalState.AtInstruction (env : Env) (s : LocalState) : Prop := AtMarker env.blocks s.position

/-- An activation gets from a state to another one, **past the beginnings of `n` instructions**. -/
abbrev GetsPast (env : Env) (n : ℕ) (s s' : LocalState) : Prop :=
  Lockstep.Passes (LocalState.goOn env) (LocalState.AtInstruction env) n s s'

section Steps

variable {env : Env} {host : Host} {s s' : LocalState} {p p' : Progress} {q r : Position}
  {ps : List Piece} {calls : List Request} {regs regs' : Regs} {mem mem' : Bytes.Mem}

theorem LocalState.goOn_of_step (h : s.step env = .next s') : s.goOn env = some s' := by
  rw [goOn, h]

theorem LocalState.goOn_of_ret {state : Word} (h : s.step env = .ret state) : s.goOn env = none := by
  rw [goOn, h]

/-- A step from where no instruction begins. -/
theorem GetsPast.single (h : s.step env = .next s') (hmarker : ¬ s.AtInstruction env) :
    GetsPast env 0 s s' := .quiet hmarker (LocalState.goOn_of_step h) (.refl s')

/-- What is called is added to the calls. -/
theorem runCode_calls_suffix (h : runCode env host ps p = .goes p') :
    p.world.calls <:+ p'.world.calls := by
  induction ps generalizing p with
  | nil =>
      obtain rfl := CodeResult.goes.inj h
      exact List.suffix_rfl
  | cons piece ps ih =>
      cases piece with
      | check cond state =>
          rw [runCode] at h
          split at h
          · exact CodeResult.noConfusion h
          · exact ih h
      | instr i =>
          by_cases hcall : ∃ dst callee args, i = .call dst callee args
          · obtain ⟨dst, callee, args, rfl⟩ := hcall
            rw [runCode] at h
            exact (List.suffix_cons _ _).trans (ih h)
          · rw [runCode_instr fun dst callee args hi => hcall ⟨dst, callee, args, hi⟩] at h
            cases hexec : i.exec env p.regs p.world.mem with
            | none =>
                rw [hexec] at h
                exact CodeResult.noConfusion h
            | some result =>
                obtain ⟨regs, mem⟩ := result
                rw [hexec] at h
                exact @ih ⟨regs, mem, p.world.calls⟩ h

/-- **An activation runs through code that calls nothing**, by induction on the layout. -/
theorem CodeAt.passes (hcode : CodeAt .Implementation env.blocks q ps r)
    (h : runCode env host ps ⟨regs, mem, calls⟩ = .goes ⟨regs', mem', calls⟩) (current : Option ℕ) :
    GetsPast env 0 ⟨q, regs, mem, current⟩ ⟨r, regs', mem', current⟩ := by
  induction hcode generalizing regs mem with
  | nil =>
      obtain ⟨rfl, hworld⟩ := Progress.mk.inj (CodeResult.goes.inj h)
      obtain ⟨rfl, -⟩ := World.mk.inj hworld
      exact .refl _
  | @instr q r i ps hitem _ ih =>
      by_cases hcall : ∃ dst callee args, i = .call dst callee args
      · obtain ⟨dst, callee, args, rfl⟩ := hcall
        rw [runCode] at h
        have hlength := (runCode_calls_suffix h).length_le
        exact absurd hlength (Nat.not_succ_le_self _)
      · rw [runCode_instr fun dst callee args hi => hcall ⟨dst, callee, args, hi⟩] at h
        cases hexec : i.exec env regs mem with
        | none =>
            rw [hexec] at h
            exact CodeResult.noConfusion h
        | some result =>
            obtain ⟨regs₁, mem₁⟩ := result
            rw [hexec] at h
            have hstep := @LocalState.step_instr env ⟨q, regs, mem, current⟩ i regs₁ mem₁ hitem hexec
            exact (GetsPast.single hstep (not_atMarker_of_itemAt hitem rfl)).trans (ih h)
  | @check q r cond state n ps hitem _ _ ih =>
      rw [runCode] at h
      split at h
      · exact CodeResult.noConfusion h
      · rename_i hfired
        have hgoto : (Terminator.condBr cond (.setVmException n) (.doNotSetVmException n)).goto env
            regs = some (.doNotSetVmException n) := by
          rw [Terminator.goto, if_neg hfired]
        have hstep := @LocalState.step_branch env ⟨q, regs, mem, current⟩ _ _ hitem hgoto
        exact (GetsPast.single hstep (not_atMarker_of_itemAt hitem rfl)).trans (ih h)

end Steps

/-- Control passes on to the instruction that is entered. -/
theorem Enters.getsPast {env : Env} {r p : Position} {label : Option BlockId}
    (h : Enters env.blocks r label p) (hopen : OpenAt env.blocks r) (regs : Regs) (mem : Bytes.Mem)
    (current : Option ℕ) : GetsPast env 0 ⟨r, regs, mem, current⟩ ⟨p, regs, mem, current⟩ := by
  cases h with
  | fallthrough => exact .refl _
  | @label b hbranch =>
      have hitem := hbranch hopen
      have hstep := @LocalState.step_branch env ⟨r, regs, mem, current⟩ _ b hitem rfl
      exact .single hstep (not_atMarker_of_itemAt hitem rfl)

/-! ### The code of an instruction -/

section Code

variable {context : FunctionContext} {bytecode pre post : List BytecodeInstruction}
  {ins : BytecodeInstruction} {T : Translation} {st st' : BuilderState} {p q : Position}
  {t : Option Terminator} {e' : EmitState}

/-- The code of an instruction ends where its pieces do. -/
theorem SplitAt.codeOf (h : SplitAt context T pre ins post st st' p t e' q) :
    CodeOf context T (pre ++ ins :: post) ins st.emit.stackPointer e'.out p q := by
  refine ⟨st, t, e', ⟨pre, post, _, _, _, _, rfl, h⟩, rfl, rfl, h.here.runs, ?_, ?_⟩
  · rintro term rfl
    have hleaves := h.here.leaves
    generalize st'.cfg.position = r at hleaves
    cases hleaves with
    | closed hitem => exact hitem
  · intro env host Q calls s henv hs hQ
    have hmarker := h.here.marker
    have hcode := h.here.code
    rw [← henv, ← hs] at hmarker hcode
    have hstart : ∀ i, itemAt env.blocks s.position = some (.instr i) → Q i := by
      intro i hi
      exact Item.noConfusion (Option.some.inj (hmarker.symm.trans hi))
    refine .of_reaches (.next hstart (LocalState.step_marker hmarker) (.refl _ _)) ?_
    exact hcode.reached hQ calls ⟨s.position.next, s.regs, s.mem, some ins.offset⟩ rfl

/-- **Behind an instruction that ends no block** control passes on to the next one. -/
theorem SplitAt.getsPast_next (hbytecode : WellFormedBytecode (pre ++ ins :: post))
    (htranslate : translateBytecode context (pre ++ ins :: post) = .ok T)
    (h : SplitAt context T pre ins post st st' p t e' q) (hordinary : ins.bc.endsBlock = false) :
    ∃ next ∈ pre ++ ins :: post, next.offset = ins.next ∧
      ∃ p', itemAt T.cfg.blocks p' = some (.marker next.offset) ∧
        ∀ env : Env, env.blocks = T.cfg.blocks → ∀ regs mem current,
          GetsPast env 0 ⟨q, regs, mem, current⟩ ⟨p', regs, mem, current⟩ := by
  have hwalked := hbytecode.walked
  have hclosers := closersLabelled_preprocess hwalked htranslate hbytecode.closed_hasLabel
  have hret : ins.bc ≠ .RET := by
    intro hret
    rw [hret] at hordinary
    exact Bool.noConfusion hordinary
  have hjmp : ins.bc ≠ .JMP := by
    intro hjmp
    rw [hjmp] at hordinary
    exact Bool.noConfusion hordinary
  obtain ⟨next, rest, rfl⟩ := hbytecode.exists_next hret hjmp
  obtain ⟨st₂, st₂', p₂, t₂, e₂, q₂, h₂, hat₂⟩ := exists_splitAt_next hwalked htranslate
  obtain ⟨-, rfl⟩ := h.scanned'.det h₂.scanned
  have hopen := h.here.openAt_end (h.openAt hclosers)
  have hleaves := h.here.leaves
  have henters := h₂.here.enters
  refine ⟨next, by simp, hwalked.next_offset, p₂, h₂.here.marker, ?_⟩
  rintro env henv regs mem current
  have hnone : t = none := by
    have hsome := (translateOpcode_endsWith h.here.runs).isSome_iff
    rw [hordinary] at hsome
    cases t with
    | none => rfl
    | some term => exact absurd (hsome.mp rfl) Bool.false_ne_true
  rw [hnone] at hleaves
  generalize st'.cfg.position = r at hleaves henters
  cases hleaves
  rw [← henv] at hopen henters
  exact henters.getsPast hopen regs mem current

end Code

/-! ### Functions over integers -/

/-- **A function over integers** of 32 and 64 bits: its signature is supported, its bytecode is
well-formed, and every variable of an instruction is a parameter or a local of the width at which the
instruction accesses it. -/
structure IntegerFunction (context : FunctionContext) (bytecode : List BytecodeInstruction) :
    Prop where
  supported : context.scriptFunction.Supported context.engine
  returned : ∃ ty, toLlvmType context.scriptFunction.returnType = .ok ty
  wellFormed : WellFormedBytecode bytecode
  fragment : ∀ ins ∈ bytecode, ins.bc.inFragment = true
  accesses : ∀ ins ∈ bytecode, ∀ v ∈ ins.accesses, context.HasVariable v.1 v.2

/-- **The activation is at the code of the instruction the VM is at**, and its memory agrees with the
VM. -/
def Corresponds (context : FunctionContext) (bytecode : List BytecodeInstruction) (env : Env)
    (m : Machine) (s : LocalState) : Prop :=
  ∃ ins, m.current bytecode = some ins ∧
    itemAt env.blocks s.position = some (.marker ins.offset) ∧ m.Agrees context env.layout s.mem

section Step

variable {context : FunctionContext} {bytecode pre post : List BytecodeInstruction}
  {ins : BytecodeInstruction} {T : Translation} {env : Env} {st st' : BuilderState}
  {p q : Position} {t : Option Terminator} {e' : EmitState} {m m' : Machine} {s : LocalState}
  {regs : Regs} {mem : Bytes.Mem}

theorem IntegerFunction.activatesFunction (h : IntegerFunction context bytecode)
    (htranslate : translateBytecode context bytecode = .ok T) (hact : Activates T env) :
    ActivatesFunction context T env := by
  obtain ⟨-, s₀, -, hlocal, -⟩ := runs_translateBytecode htranslate
  exact ⟨h.supported, h.returned, ⟨_, _, hlocal⟩, hact⟩

/-- The VM is at the instruction at its offset. -/
theorem Machine.current_eq (hwalked : Walked bytecode) (hins : ins ∈ bytecode)
    (ho : (ins.offset : ℤ) = m.offset) : m.current bytecode = some ins := by
  cases hfind : m.current bytecode with
  | none => exact absurd ho (by simpa using List.find?_eq_none.mp hfind ins hins)
  | some found =>
      have hfound : (found.offset : ℤ) = m.offset := by simpa using List.find?_some hfind
      have heq : found.offset = ins.offset := by omega
      rw [hwalked.eq_of_offset (List.mem_of_find?_eq_some hfind) hins heq]

/-- The beginning of an instruction corresponds to the VM at it. -/
theorem corresponds_of_marker (hwalked : Walked bytecode) (hins : ins ∈ bytecode)
    (ho : (ins.offset : ℤ) = m.offset)
    (hmarker : itemAt env.blocks s.position = some (.marker ins.offset))
    (hagrees : m.Agrees context env.layout s.mem) : Corresponds context bytecode env m s :=
  ⟨ins, Machine.current_eq hwalked hins ho, hmarker, hagrees⟩

/-- Only the variables and the value register matter to the memory. -/
theorem Machine.Agrees.move (h : m.Agrees context env.layout mem) (o : ℤ) :
    { m with offset := o }.Agrees context env.layout mem := ⟨h.dwords, h.valueRegister⟩

/-- A label is where the instruction at its offset begins. -/
theorem corresponds_label (h : IntegerFunction context bytecode)
    (htranslate : translateBytecode context bytecode = .ok T) (hact : Activates T env)
    (hins : ins ∈ bytecode) {o : ℤ} (ho : o ∈ ins.branchTargets)
    (hagrees : m.Agrees context env.layout mem) (current : Option ℕ) :
    Corresponds context bytecode env { m with offset := o }
      ⟨(.label o, 0), regs, mem, current⟩ := by
  have hlabel : T.jumps.HasLabel o := by
    rw [(runs_translateBytecode htranslate).1]
    exact preprocess_hasLabel_of_mem hins ho
  obtain ⟨target, htarget, hoffset, hmarker⟩ :=
    (translateBytecode_mirrors h.wellFormed htranslate).labels o hlabel
  rw [← hact.blocks] at hmarker
  exact corresponds_of_marker h.wellFormed.walked htarget hoffset hmarker (hagrees.move o)

/-- **An instruction that ends no block**: its code does what the VM does, and control passes on to the
next one. -/
theorem SplitAt.ordinary_corresponds (h : IntegerFunction context (pre ++ ins :: post))
    (htranslate : translateBytecode context (pre ++ ins :: post) = .ok T) (hact : Activates T env)
    (hsplit : SplitAt context T pre ins post st st' p t e' q) (hordinary : ins.bc.endsBlock = false)
    (hdefined : m.Defined ins) (hagrees : m.Agrees context env.layout mem) (current : Option ℕ) :
    ∃ m' s', m.exec ins = some m' ∧ GetsPast env 0 ⟨p.next, regs, mem, current⟩ s' ∧
      Corresponds context (pre ++ ins :: post) env { m' with offset := ins.next } s' := by
  have hins : ins ∈ pre ++ ins :: post := by simp
  have hruns := hsplit.here.runs
  rw [translateOpcode_of_ordinary T.stack T.jumps ins hordinary, runs_bind] at hruns
  obtain ⟨_, _, hruns, hpure⟩ := hruns
  obtain ⟨-, rfl⟩ := runs_pure.mp hpure
  have hframe := h.activatesFunction htranslate hact
  obtain ⟨m', regs', mem', hexec, hgoes, hagrees'⟩ := @translateOrdinary_doesAsVm context T env
    (fun _ => (0, fun _ => 0)) ins m _ _ hframe (h.fragment ins hins) hordinary
    (h.accesses ins hins) hdefined rfl hruns regs mem [] hagrees
  obtain ⟨next, hnext, ho, p', hmarker, hpasses⟩ :=
    hsplit.getsPast_next h.wellFormed htranslate hordinary
  have hcode := hsplit.here.code
  rw [← hact.blocks] at hcode hmarker
  refine ⟨m', ⟨p', regs', mem', current⟩, hexec,
    (hcode.passes hgoes current).trans (hpasses env hact.blocks regs' mem' current), ?_⟩
  exact corresponds_of_marker h.wellFormed.walked hnext (congrArg Nat.cast ho) hmarker
    (hagrees'.move _)

/-- **A jump**: control passes on to its target. -/
theorem SplitAt.jump_corresponds (h : IntegerFunction context (pre ++ ins :: post))
    (htranslate : translateBytecode context (pre ++ ins :: post) = .ok T) (hact : Activates T env)
    (hsplit : SplitAt context T pre ins post st st' p t e' q) (hbc : ins.bc = .JMP)
    (hagrees : m.Agrees context env.layout mem) (current : Option ℕ) :
    ∃ s', GetsPast env 0 ⟨p.next, regs, mem, current⟩ s' ∧
      Corresponds context (pre ++ ins :: post) env { m with offset := ins.target } s' := by
  have hlabelled : T.jumps.Labelled := (runs_translateBytecode htranslate).1 ▸ preprocess_labelled _
  have hruns := hsplit.here.runs
  have hcode := hsplit.here.code
  have hleaves := hsplit.here.leaves
  simp only [translateOpcode, hbc, getBranchTarget, runs_bind, runs_atOrThrow, runs_pure] at hruns
  obtain ⟨b, _, ⟨hb, rfl⟩, rfl, rfl⟩ := hruns
  obtain rfl := hlabelled _ _ hb
  cases hcode
  have hitem : itemAt T.cfg.blocks p.next = some (.term (.br (.label ins.target))) := by
    generalize st'.cfg.position = r at hleaves
    cases hleaves with
    | closed hitem => exact hitem
  rw [← hact.blocks] at hitem
  have hstep := @LocalState.step_branch env ⟨p.next, regs, mem, current⟩ _ (.label ins.target) hitem
    rfl
  refine ⟨_, .single hstep (not_atMarker_of_itemAt hitem rfl), ?_⟩
  have hins : ins ∈ pre ++ ins :: post := by simp
  refine corresponds_label h htranslate hact hins ?_ hagrees current
  rw [BytecodeInstruction.branchTargets, if_pos hbc]
  exact List.mem_singleton_self _

/-- **A conditional jump**: control passes on to where the VM goes on. -/
theorem SplitAt.conditional_corresponds (h : IntegerFunction context (pre ++ ins :: post))
    (htranslate : translateBytecode context (pre ++ ins :: post) = .ok T) (hact : Activates T env)
    (hsplit : SplitAt context T pre ins post st st' p t e' q)
    (hcond : ins.bc.isConditionalJump = true) (hagrees : m.Agrees context env.layout mem)
    (current : Option ℕ) : ∃ s', GetsPast env 0 ⟨p.next, regs, mem, current⟩ s' ∧
      Corresponds context (pre ++ ins :: post) env { m with
        offset := if ins.bc.taken m.valueRegister then ins.target else ins.offset + 2 } s' := by
  obtain ⟨⟨pred, type⟩, htest⟩ := Opcode.isConditionalJump_iff.mp hcond
  obtain ⟨regs', cond, hgoes, hterm, hvalue⟩ := hsplit.codeOf.jump_runs htranslate htest hact
    (fun _ => (0, fun _ => 0)) [] ⟨p, regs, mem, current⟩
  have hcode := hsplit.here.code
  rw [← hact.blocks] at hcode hterm
  have htaken : cond.eval env regs' = ofBool (ins.bc.taken m.valueRegister) := by
    rw [hvalue, Opcode.taken_eq htest, ← hagrees.valueRegister]
  have hgoto : (Terminator.condBr cond (.label ins.target) (.label (ins.offset + 2))).goto env regs' =
      some (.label (if ins.bc.taken m.valueRegister then ins.target else ins.offset + 2)) := by
    rw [Terminator.goto, htaken, ofBool_getLsbD]
    cases ins.bc.taken m.valueRegister <;> rfl
  have hstep := @LocalState.step_branch env ⟨q, regs', mem, current⟩ _ _ hterm hgoto
  refine ⟨_, (hcode.passes hgoes current).trans
    (GetsPast.single hstep (not_atMarker_of_itemAt hterm rfl)), ?_⟩
  have hins : ins ∈ pre ++ ins :: post := by simp
  refine corresponds_label h htranslate hact hins ?_ hagrees current
  rw [BytecodeInstruction.branchTargets_of_conditional hcond]
  split <;> simp

/-- What a function that returns an integer returns through its first argument. -/
def ReturnsInteger (function : ScriptFunction) (ty : Ty) : Prop :=
  function.returnType.Returned ty ∧ function.returnType.usesObjectRegister = false ∧
    function.doesReturnOnStack = false ∧ ty.IsVariable

/-- The code of `RET` is run through; an integer is stored through the first argument. -/
theorem translateRet_goes {stack : StackFrame} {e : EmitState} {term : Terminator} (hact : Activates T env)
    (h : Runs (translateRet stack ins) e term e') (hout : e.out = []) (host : Host) (calls : List Request) :
    ∃ regs' mem', runCode env host e'.out ⟨regs, mem, calls⟩ = .goes ⟨regs', mem', calls⟩ ∧
      ∀ ty, ReturnsInteger stack.scriptFunction ty →
        mem' = Bytes.write mem (env.args.getD 0 0).toNat ty.storeSize
          (ty.truncate (Bytes.read mem (env.layout.address .valueRegister) 8)) := by
  have hstore : ∀ r ty (regs : Regs) (mem : Bytes.Mem),
      (Instr.store ty (.reg r) (.arg 0)).exec env regs mem = some (regs,
        Bytes.write mem (env.args.getD 0 0).toNat ty.storeSize (ty.truncate (regs r))) :=
    fun _ _ _ _ => rfl
  rw [translateRet] at h
  dsimp only at h
  split at h
  · simp only [runs_bind] at h
    obtain ⟨ty, e₁, hlift, h⟩ := h
    obtain ⟨hty, rfl⟩ := runs_lift.mp hlift
    split at h
    · rename_i hobject
      simp only [runs_bind, runs_createLoad, runs_createStore, runs_modify, runs_pure] at h
      obtain ⟨_, _, ⟨rfl, rfl⟩, _, _, rfl, _, _, rfl, -, rfl⟩ := h
      have hload := exec_load_alloca .pvoid (Nat.le_of_eq hact.objectRegister.symm) regs mem e₁.nextReg
      simp only [EmitState.extend_out, hout, List.nil_append, List.singleton_append, objectRegister_op,
        pointerCast_op, pointerCast_ty]
      refine ⟨_, _, (runCode_step hload).trans (runCode_step (hstore _ _ _ _)), ?_⟩
      rintro ty' ⟨-, hregister, -, -⟩
      exact absurd (hregister.symm.trans hobject) Bool.false_ne_true
    · simp only [runs_bind, runs_loadValueRegisterValue, runs_createStore, runs_modify, runs_pure] at h
      obtain ⟨_, _, ⟨rfl, rfl⟩, _, _, rfl, _, _, rfl, -, rfl⟩ := h
      have hload := exec_load_alloca ty (hact.valueRegister ▸ ty.storeSize_le) regs mem e₁.nextReg
      simp only [EmitState.extend_out, hout, List.nil_append, List.singleton_append]
      refine ⟨_, _, (runCode_step hload).trans (runCode_step (hstore _ _ _ _)), ?_⟩
      rintro ty' ⟨hreturned, -, -, hvariable⟩
      obtain rfl := Except.ok.inj (hty.symm.trans hreturned.llvm)
      have hregister := truncate_read (by rcases hvariable with rfl | rfl <;> rfl) ty.storeSize_le mem
        (env.layout.address .valueRegister)
      rw [Function.update_self, Ty.truncate, hregister, Ty.truncate]
  · rename_i hnothing
    simp only [runs_bind, runs_modify, runs_pure] at h
    obtain ⟨_, _, rfl, -, rfl⟩ := h
    refine ⟨regs, mem, by rw [hout]; rfl, ?_⟩
    rintro ty ⟨hreturned, -, hstack, -⟩
    exact absurd ⟨hreturned.token, by rw [hstack]; rfl⟩ hnothing

/-- **What a return does**: the activation returns `Ok`, and an integer that the function returns is what
the value register of the VM holds. -/
def ReturnsAsVm (context : FunctionContext) (env : Env) (m : Machine) (s : LocalState) : Prop :=
  ∃ u, GetsPast env 1 s u ∧ u.step env = .ret VmState.Ok.word ∧ ¬ u.AtInstruction env ∧
    ∀ ty, ReturnsInteger context.scriptFunction ty →
      u.mem = Bytes.write s.mem (env.args.getD 0 0).toNat ty.storeSize (ty.truncate m.valueRegister)

/-- **`RET`** does what the VM does. -/
theorem SplitAt.ret_returnsAsVm (h : IntegerFunction context (pre ++ ins :: post))
    (htranslate : translateBytecode context (pre ++ ins :: post) = .ok T) (hact : Activates T env)
    (hsplit : SplitAt context T pre ins post st st' p t e' q) (hbc : ins.bc = .RET)
    (hs : s.position = p) (hagrees : m.Agrees context env.layout s.mem) :
    ReturnsAsVm context env m s := by
  have hmarker := hsplit.here.marker
  have hcode := hsplit.here.code
  have hleaves := hsplit.here.leaves
  have hruns := hsplit.here.runs
  rw [← hact.blocks, ← hs] at hmarker hcode
  obtain ⟨term, hret, rfl⟩ : ∃ term,
      Runs (translateRet T.stack ins) { st.emit with out := [] } term e' ∧ t = some term := by
    simp only [translateOpcode, hbc, runs_bind, runs_pure] at hruns
    obtain ⟨term, _, hret, rfl, rfl⟩ := hruns
    exact ⟨term, hret, rfl⟩
  obtain rfl := translateRet_eq hret
  have hitem : itemAt T.cfg.blocks q = some (.term (.ret VmState.Ok.const.op)) := by
    generalize st'.cfg.position = r at hleaves
    cases hleaves with
    | closed hitem => exact hitem
  rw [← hact.blocks] at hitem
  obtain ⟨regs', mem', hgoes, hvalue⟩ := @translateRet_goes ins T env e' s.regs s.mem _ _ _ hact hret
    rfl (fun _ => (0, fun _ => 0)) []
  have hcontext := (h.activatesFunction htranslate hact).context_eq
  refine ⟨⟨q, regs', mem', some ins.offset⟩, ?_, ?_, not_atMarker_of_itemAt hitem rfl, ?_⟩
  · exact .marked ⟨_, hmarker⟩ (LocalState.goOn_of_step (LocalState.step_marker hmarker))
      (hcode.passes hgoes (some ins.offset))
  · rw [LocalState.step, hitem]
    rfl
  · intro ty hty
    rw [← hagrees.valueRegister]
    rw [← hcontext] at hty
    exact hvalue ty hty

end Step

/-! ### Runs -/

section Run

variable {context : FunctionContext} {bytecode : List BytecodeInstruction} {T : Translation}
  {env : Env} {m m' : Machine} {s : LocalState}

theorem Machine.step_of_current {ins : BytecodeInstruction} (h : m.current bytecode = some ins) :
    m.step bytecode = m.execute ins := by
  rw [step, h]

theorem Machine.execute_ret {ins : BytecodeInstruction} (hbc : ins.bc = .RET) :
    m.execute ins = .finished := by
  rw [execute, if_neg (by rw [hbc]; decide), if_pos hbc]

theorem Machine.execute_jmp {ins : BytecodeInstruction} (hbc : ins.bc = .JMP) :
    m.execute ins = .next { m with offset := ins.target } := by
  rw [execute, if_neg (by rw [hbc]; decide), if_neg (by rw [hbc]; decide), if_pos hbc]

theorem Machine.execute_conditional {ins : BytecodeInstruction} (hfragment : ins.bc.inFragment = true)
    (hcond : ins.bc.isConditionalJump = true) : m.execute ins = .next { m with
      offset := if ins.bc.taken m.valueRegister then ins.target else ins.offset + 2 } := by
  have hret : ins.bc ≠ .RET := by
    intro hret
    rw [hret] at hcond
    exact Bool.noConfusion hcond
  have hjmp : ins.bc ≠ .JMP := by
    intro hjmp
    rw [hjmp] at hcond
    exact Bool.noConfusion hcond
  rw [execute, hfragment, Bool.not_true, if_neg Bool.false_ne_true, if_neg hret, if_neg hjmp,
    if_pos hcond]

/-- The instructions other than the jumps and the return end no block. -/
theorem Opcode.endsBlock_of_fragment {bc : Opcode} (hfragment : bc.inFragment = true)
    (hret : bc ≠ .RET) (hjmp : bc ≠ .JMP) (hcond : ¬ bc.isConditionalJump = true) :
    bc.endsBlock = false := by
  have hjmpp : bc ≠ .JMPP := by
    rintro rfl
    exact Bool.noConfusion hfragment
  simp [endsBlock, hret, hjmp, hjmpp, hcond]

/-- An instruction that ends no block. -/
theorem Machine.execute_ordinary {ins : BytecodeInstruction} (hfragment : ins.bc.inFragment = true)
    (hordinary : ins.bc.endsBlock = false) :
    (∀ m', m.exec ins = some m' → m.execute ins = .next { m' with offset := ins.next }) ∧
      (m.exec ins = none → m.execute ins = .exception) := by
  obtain ⟨hret, hjmp, hcond⟩ : ins.bc ≠ .RET ∧ ins.bc ≠ .JMP ∧ ¬ ins.bc.isConditionalJump = true := by
    refine ⟨?_, ?_, ?_⟩ <;> intro h <;> simp [Opcode.endsBlock, h] at hordinary
  constructor
  · intro m' hexec
    rw [execute, hfragment, Bool.not_true, if_neg Bool.false_ne_true, if_neg hret, if_neg hjmp,
      if_neg hcond, hexec]
  · intro hexec
    rw [execute, hfragment, Bool.not_true, if_neg Bool.false_ne_true, if_neg hret, if_neg hjmp,
      if_neg hcond, hexec]

/-- **One instruction**: the activation gets to where the VM goes on, or it returns as the VM finishes. -/
theorem Corresponds.step (h : IntegerFunction context bytecode)
    (htranslate : translateBytecode context bytecode = .ok T) (hact : Activates T env)
    (hcorresponds : Corresponds context bytecode env m s) (hdefined : m.DefinedAt bytecode) :
    (∃ m' s', m.step bytecode = .next m' ∧ GetsPast env 1 s s' ∧
      Corresponds context bytecode env m' s') ∨
    m.step bytecode = .finished ∧ ReturnsAsVm context env m s := by
  obtain ⟨ins, hcurrent, hmarker, hagrees⟩ := hcorresponds
  have hins : ins ∈ bytecode := List.mem_of_find?_eq_some hcurrent
  have hfragment := h.fragment ins hins
  rw [Machine.step_of_current hcurrent]
  obtain ⟨pre, post, rfl⟩ := List.append_of_mem hins
  obtain ⟨st, st', p, t, e', q, hsplit⟩ := exists_splitAt h.wellFormed.walked htranslate
  obtain ⟨bound, hmarked⟩ := translateBytecode_marked h.wellFormed.walked htranslate
  have hs : s.position = p := by
    rw [hact.blocks] at hmarker
    exact hmarked.unique _ _ _ hmarker hsplit.here.marker
  have hstart := LocalState.goOn_of_step (LocalState.step_marker hmarker)
  by_cases hret : ins.bc = .RET
  · exact .inr ⟨Machine.execute_ret hret, hsplit.ret_returnsAsVm h htranslate hact hret hs hagrees⟩
  left
  by_cases hjmp : ins.bc = .JMP
  · obtain ⟨s', hpasses, hnext⟩ := @SplitAt.jump_corresponds context pre post ins T env st st' p q t
      e' m s.regs s.mem h htranslate hact hsplit hjmp hagrees (some ins.offset)
    exact ⟨_, s', Machine.execute_jmp hjmp, .marked ⟨_, hmarker⟩ hstart (hs ▸ hpasses), hnext⟩
  by_cases hcond : ins.bc.isConditionalJump = true
  · obtain ⟨s', hpasses, hnext⟩ := @SplitAt.conditional_corresponds context pre post ins T env st
      st' p q t e' m s.regs s.mem h htranslate hact hsplit hcond hagrees (some ins.offset)
    exact ⟨_, s', Machine.execute_conditional hfragment hcond,
      .marked ⟨_, hmarker⟩ hstart (hs ▸ hpasses), hnext⟩
  have hordinary := Opcode.endsBlock_of_fragment hfragment hret hjmp hcond
  obtain ⟨m', s', hexec, hpasses, hnext⟩ := @SplitAt.ordinary_corresponds context pre post ins T
    env st st' p q t e' m s.regs s.mem h htranslate hact hsplit hordinary
    (hdefined ins hcurrent) hagrees (some ins.offset)
  exact ⟨_, s', (Machine.execute_ordinary hfragment hordinary).1 m' hexec,
    .marked ⟨_, hmarker⟩ hstart (hs ▸ hpasses), hnext⟩

/-- **A lockstep simulation**: of the VM by an activation, as long as LLVM defines the operations. -/
theorem simulation (h : IntegerFunction context bytecode)
    (htranslate : translateBytecode context bytecode = .ok T) (hact : Activates T env) :
    Lockstep.Simulation (Machine.goOn bytecode) (LocalState.goOn env) (LocalState.AtInstruction env)
      (Corresponds context bytecode env) (Machine.DefinedAt bytecode) where
  marked := by
    rintro m s ⟨ins, -, hmarker, -⟩
    exact ⟨_, hmarker⟩
  next := by
    intro m s m' hcorresponds hdefined hstep
    rw [Machine.goOn] at hstep
    rcases hcorresponds.step h htranslate hact hdefined with ⟨m₁, s', hnext, hpasses, hnext'⟩ |
      ⟨hfinished, -⟩
    · rw [hnext] at hstep
      obtain rfl := Option.some.inj hstep
      exact ⟨s', hpasses, hnext'⟩
    · rw [hfinished] at hstep
      exact absurd hstep (Option.some_ne_none _).symm
  stops := by
    intro m s hcorresponds hdefined hstep s' hpasses
    rw [Machine.goOn] at hstep
    rcases hcorresponds.step h htranslate hact hdefined with ⟨m₁, s₁, hnext, -, -⟩ |
      ⟨-, u, hu, hret, hnot, -⟩
    · rw [hnext] at hstep
      exact absurd hstep (Option.some_ne_none _)
    · exact hu.not_marked_of_stops (LocalState.goOn_of_ret hret) hnot hpasses

/-- **An activation gets to the first instruction**, with its arguments in its parameters and with
everything else cleared. -/
theorem exists_started {first : BytecodeInstruction}
    (hsupported : context.scriptFunction.Supported context.engine)
    (hreturned : ∃ ty, toLlvmType context.scriptFunction.returnType = .ok ty)
    (hwalked : Walked bytecode) (hfirst : bytecode.head? = some first)
    (htranslate : translateBytecode context bytecode = .ok T) (hact : Activates T env)
    (hs : s.position = (.entry, 0)) : ∃ s' tys stored, GetsPast env 0 s s' ∧
      itemAt env.blocks s'.position = some (.marker first.offset) ∧
      s'.mem = env.layout.cleared stored ∧
      (scriptCallSlots context.engine context.scriptFunction).mapM toLlvmType = .ok tys ∧
      HoldsArguments T.stack env (env.layout.cleared stored) (hiddenArguments context.scriptFunction)
        0 (scriptCallSlots context.engine context.scriptFunction) tys := by
  obtain ⟨-, s₀, r₀, s₁, hlocal, hcode, hlaid, -⟩ := translateBytecode_laidOut hwalked htranslate
  obtain ⟨tys, stored, htys, hgoes, harguments⟩ := prologuePieces_goes hsupported hreturned rfl
    hlocal hact (fun _ => (0, fun _ => 0)) s.regs s.mem []
  have hopen : OpenAt T.cfg.blocks r₀ := hcode.openAt (.start _)
  cases hlaid with
  | nil => cases hfirst
  | cons hhere _ =>
      have hmarker := hhere.marker
      have henters := hhere.enters
      rw [← hact.blocks] at hcode hopen henters hmarker
      have hprologue := hcode.passes hgoes s.current
      rw [← hs] at hprologue
      obtain rfl := Option.some.inj hfirst
      exact ⟨_, tys, stored, hprologue.trans (henters.getsPast hopen s.regs _ s.current), hmarker, rfl,
        htys, harguments⟩

/-- **The start of a function**: the activation gets to the first instruction, and agrees with the
VM. -/
theorem exists_corresponds_entry (h : IntegerFunction context bytecode)
    (htranslate : translateBytecode context bytecode = .ok T) (hact : Activates T env)
    (hs : s.position = (.entry, 0)) : ∃ s', GetsPast env 0 s s' ∧
      Corresponds context bytecode env (Machine.entry context env.args) s' := by
  have hframe := h.activatesFunction htranslate hact
  rcases bytecode with _ | ⟨first, rest⟩
  · obtain ⟨last, hlast, -⟩ := h.wellFormed.last
    exact absurd hlast (by simp)
  · obtain ⟨s', tys, stored, hpasses, hmarker, hmem, htys, harguments⟩ :=
      exists_started h.supported h.returned h.wellFormed.walked rfl htranslate hact hs
    have hagrees := agrees_entry hframe htys harguments
    rw [← hmem] at hagrees
    exact ⟨s', hpasses, corresponds_of_marker h.wellFormed.walked List.mem_cons_self
      (congrArg Nat.cast h.wellFormed.walked.1) hmarker hagrees⟩

/-! ### Where LLVM does not define an operation -/

/-- **An activation stops at code that comes to nothing**, by induction on the layout. -/
theorem CodeAt.stops {q r : Position} {ps : List Piece} {regs : Regs} {mem : Bytes.Mem} {host : Host}
    {p : Progress} {calls : List Request} (hcode : CodeAt .Implementation env.blocks q ps r)
    (hcalls : ∀ dst callee args, .instr (.call dst callee args) ∉ ps)
    (h : runCode env host ps ⟨regs, mem, calls⟩ = .stuck p) (current : Option ℕ) :
    ∃ u, GetsPast env 0 ⟨q, regs, mem, current⟩ u ∧ u.step env = .undefined ∧
      ¬ u.AtInstruction env := by
  induction hcode generalizing regs mem with
  | nil => exact CodeResult.noConfusion h
  | @instr q r i ps hitem _ ih =>
      have hcall : ∀ dst callee args, i ≠ .call dst callee args := by
        rintro dst callee args rfl
        exact hcalls dst callee args List.mem_cons_self
      have hrest : ∀ dst callee args, .instr (.call dst callee args) ∉ ps :=
        fun dst callee args hmem => hcalls dst callee args (List.mem_cons_of_mem _ hmem)
      rw [runCode_instr hcall] at h
      have hnot := not_atMarker_of_itemAt hitem rfl
      cases hexec : i.exec env regs mem with
      | none =>
          refine ⟨_, .refl _, ?_, hnot⟩
          rw [LocalState.step, hitem]
          cases i with
          | call dst callee args => exact absurd rfl (hcall dst callee args)
          | _ => simp only [hexec]
      | some result =>
          obtain ⟨regs₁, mem₁⟩ := result
          rw [hexec] at h
          obtain ⟨u, hpasses, hu⟩ := ih hrest h
          have hstep := @LocalState.step_instr env ⟨q, regs, mem, current⟩ i regs₁ mem₁ hitem hexec
          exact ⟨u, (GetsPast.single hstep hnot).trans hpasses, hu⟩
  | @check q r cond state n ps hitem _ _ ih =>
      rw [runCode] at h
      split at h
      · exact CodeResult.noConfusion h
      · rename_i hfired
        have hgoto : (Terminator.condBr cond (.setVmException n) (.doNotSetVmException n)).goto env
            regs = some (.doNotSetVmException n) := by
          rw [Terminator.goto, if_neg hfired]
        have hrest : ∀ dst callee args, .instr (.call dst callee args) ∉ ps :=
          fun dst callee args hmem => hcalls dst callee args (List.mem_cons_of_mem _ hmem)
        obtain ⟨u, hpasses, hu⟩ := ih hrest h
        have hstep := @LocalState.step_branch env ⟨q, regs, mem, current⟩ _ _ hitem hgoto
        exact ⟨u, (GetsPast.single hstep (not_atMarker_of_itemAt hitem rfl)).trans hpasses, hu⟩

theorem LocalState.goOn_of_undefined (hs : s.step env = .undefined) : s.goOn env = none := by
  rw [goOn, hs]

/-- **An instruction whose operation LLVM does not define**: the activation begins it and comes to
nothing, while the VM goes on or raises an exception. -/
theorem Corresponds.stops (h : IntegerFunction context bytecode)
    (htranslate : translateBytecode context bytecode = .ok T) (hact : Activates T env)
    (hcorresponds : Corresponds context bytecode env m s) (hundefined : ¬ m.DefinedAt bytecode) :
    (∃ u, GetsPast env 1 s u ∧ u.step env = .undefined ∧ ¬ u.AtInstruction env) ∧
      ((∃ m', m.step bytecode = .next m') ∨ m.step bytecode = .exception) := by
  obtain ⟨ins, hcurrent, hmarker, hagrees⟩ := hcorresponds
  have hins : ins ∈ bytecode := List.mem_of_find?_eq_some hcurrent
  have hnot : ¬ m.Defined ins := by
    intro hdefined
    refine hundefined fun ins' hcurrent' => ?_
    obtain rfl := Option.some.inj (hcurrent.symm.trans hcurrent')
    exact hdefined
  obtain ⟨op, ty, hop⟩ : ∃ op ty, ins.bc.integerOp = some (op, ty) := by
    by_contra hop
    exact hnot fun op ty h => absurd ⟨op, ty, h⟩ hop
  have hordinary := Opcode.integerOp_ordinary hop
  have hframe := h.activatesFunction htranslate hact
  have hvariables := h.accesses ins hins
  have hfragment := h.fragment ins hins
  obtain ⟨pre, post, rfl⟩ := List.append_of_mem hins
  obtain ⟨st, st', p, t, e', q, hsplit⟩ := exists_splitAt h.wellFormed.walked htranslate
  obtain ⟨bound, hmarked⟩ := translateBytecode_marked h.wellFormed.walked htranslate
  have hs : s.position = p := by
    rw [hact.blocks] at hmarker
    exact hmarked.unique _ _ _ hmarker hsplit.here.marker
  have hruns := hsplit.here.runs
  rw [translateOpcode_of_ordinary T.stack T.jumps ins hordinary, runs_bind] at hruns
  obtain ⟨_, _, hruns, hpure⟩ := hruns
  obtain ⟨-, rfl⟩ := runs_pure.mp hpure
  have hcode := hsplit.here.code
  rw [integerOp_code hop rfl hruns, ← hact.blocks, ← hs] at hcode
  obtain ⟨stuck, hstuck⟩ := @integerOp_stuck context T env (fun _ => (0, fun _ => 0)) ins m ty op s.mem
    hframe hvariables hop hnot hagrees s.regs [] st.emit.nextReg
  have hcalls : ∀ dst callee args, .instr (.call dst callee args) ∉
      integerCode T.stack ins op ty st.emit.nextReg := by
    intro dst callee args
    rw [integerCode]
    split <;> simp
  obtain ⟨u, hpasses, hu⟩ := hcode.stops hcalls hstuck (some ins.offset)
  refine ⟨⟨u, .marked ⟨_, hmarker⟩ (LocalState.goOn_of_step (LocalState.step_marker hmarker)) hpasses,
    hu⟩, ?_⟩
  obtain ⟨hnext, hexception⟩ := @Machine.execute_ordinary m ins hfragment hordinary
  rw [Machine.step_of_current hcurrent]
  cases hexec : m.exec ins with
  | none => exact .inr (hexception hexec)
  | some m' => exact .inl ⟨_, hnext m' hexec⟩

/-! ### Whole runs -/

/-- The activation begins the instruction at an offset. -/
def LocalState.IsAt (env : Env) (o : ℤ) (s : LocalState) : Prop :=
  ∃ offset : ℕ, (offset : ℤ) = o ∧ itemAt env.blocks s.position = some (.marker offset)

/-- The activation begins an instruction, and **returns an exception** from it. -/
def RaisesException (env : Env) (s : LocalState) : Prop :=
  ∃ u state, GetsPast env 1 s u ∧ u.step env = .ret state ∧ state ≠ VmState.Ok.word

/-- **After `n` instructions the activation is where the VM is**: it begins the instruction that the VM
is at, with equal variables and an equal value register, and it returns from the function as the VM does,
or with an exception as the VM raises one. -/
structure FollowsVm (context : FunctionContext) (bytecode : List BytecodeInstruction) (env : Env)
    (m : Machine) (s : LocalState) (n : ℕ) : Prop where
  offset : ∀ o, (∃ m', m.run bytecode n = some m' ∧ m'.offset = o) ↔
    ∃ s', GetsPast env n s s' ∧ s'.IsAt env o
  agrees : ∀ m' s', m.run bytecode n = some m' → GetsPast env n s s' → s'.AtInstruction env →
    m'.Agrees context env.layout s'.mem
  returns : ∀ m' s', m.run bytecode n = some m' → GetsPast env n s s' → s'.AtInstruction env →
    m'.step bytecode = .finished → ReturnsAsVm context env m' s'
  raises : ∀ m' s', m.run bytecode n = some m' → GetsPast env n s s' → s'.AtInstruction env →
    m'.step bytecode = .exception → RaisesException env s'

theorem Corresponds.isAt {o : ℤ} (h : Corresponds context bytecode env m s) :
    s.IsAt env o ↔ m.offset = o := by
  obtain ⟨ins, hcurrent, hmarker, -⟩ := h
  have hoffset : (ins.offset : ℤ) = m.offset := by simpa using List.find?_some hcurrent
  constructor
  · rintro ⟨offset, rfl, hmarker'⟩
    obtain rfl := Item.marker.inj (Option.some.inj (hmarker.symm.trans hmarker'))
    exact hoffset.symm
  · rintro rfl
    exact ⟨ins.offset, hoffset, hmarker⟩

/-- The VM in the middle of a run. -/
theorem Machine.run_succ {n : ℕ} {m₁ m₂ : Machine} (hrun : m.run bytecode n = some m₁)
    (hstep : m₁.step bytecode = .next m₂) : m.run bytecode (n + 1) = some m₂ := by
  have hgoOn : m₁.goOn bytecode = some m₂ := by rw [goOn, hstep]
  exact Option.bind_eq_some_iff.mpr ⟨m₁, hrun, hgoOn⟩

/-- **What whole runs preserve**: where LLVM defines the operations of all instructions, the activation
follows the VM. -/
theorem followsVm_of_defined (h : IntegerFunction context bytecode)
    (htranslate : translateBytecode context bytecode = .ok T) (hact : Activates T env)
    {s₀ : LocalState} (hstart : GetsPast env 0 s₀ s) (hcorresponds : Corresponds context bytecode env m s)
    (hdefined : ∀ n m', m.run bytecode n = some m' → m'.DefinedAt bytecode) (n : ℕ) :
    FollowsVm context bytecode env m s₀ n := by
  have hsimulation := simulation h htranslate hact
  have hforward {m' : Machine} (hrun : m.run bytecode n = some m') :=
    hsimulation.forward hstart hcorresponds (fun k _ => hdefined k) hrun
  -- the states after n instructions are related
  have hrelated {m' : Machine} {s' : LocalState} (hrun : m.run bytecode n = some m')
      (hpasses : GetsPast env n s₀ s') (hat : s'.AtInstruction env) :
      Corresponds context bytecode env m' s' := by
    obtain ⟨s₁, hpasses₁, hrelated₁⟩ := hforward hrun
    obtain rfl := hpasses₁.unique (hsimulation.marked _ _ hrelated₁) hpasses hat
    exact hrelated₁
  refine ⟨fun o => ⟨?_, ?_⟩, ?_, ?_, ?_⟩
  · rintro ⟨m', hrun, ho⟩
    obtain ⟨s', hpasses, hrelated'⟩ := hforward hrun
    exact ⟨s', hpasses, hrelated'.isAt.mpr ho⟩
  · rintro ⟨s', hpasses, hat⟩
    have hinstruction : s'.AtInstruction env := by
      obtain ⟨offset, -, hmarker⟩ := hat
      exact ⟨offset, hmarker⟩
    obtain ⟨m', hrun, hrelated'⟩ :=
      hsimulation.backward hstart hcorresponds (fun k _ => hdefined k) hpasses hinstruction
    exact ⟨m', hrun, hrelated'.isAt.mp hat⟩
  · intro m' s' hrun hpasses hat
    obtain ⟨-, -, -, hagrees⟩ := hrelated hrun hpasses hat
    exact hagrees
  · intro m' s' hrun hpasses hat hfinished
    rcases (hrelated hrun hpasses hat).step h htranslate hact (hdefined n m' hrun) with
      ⟨m'', -, hnext, -⟩ | ⟨-, hreturns⟩
    · exact Machine.Outcome.noConfusion (hfinished.symm.trans hnext)
    · exact hreturns
  · intro m' s' hrun hpasses hat hexception
    rcases (hrelated hrun hpasses hat).step h htranslate hact (hdefined n m' hrun) with
      ⟨m'', -, hnext, -⟩ | ⟨hfinished, -⟩
    · exact Machine.Outcome.noConfusion (hexception.symm.trans hnext)
    · exact Machine.Outcome.noConfusion (hexception.symm.trans hfinished)

/-- **Where LLVM does not define an operation**, the activation does not follow the VM any more. -/
theorem not_followsVm (h : IntegerFunction context bytecode)
    (htranslate : translateBytecode context bytecode = .ok T) (hact : Activates T env)
    {s₀ : LocalState} {m' : Machine} {n : ℕ} (hpasses : GetsPast env n s₀ s)
    (hrun : m.run bytecode n = some m') (hcorresponds : Corresponds context bytecode env m' s)
    (hundefined : ¬ m'.DefinedAt bytecode) (hfollows : ∀ n, FollowsVm context bytecode env m s₀ n) :
    False := by
  have hat := (simulation h htranslate hact).marked _ _ hcorresponds
  obtain ⟨⟨u, hu, hstuck, hnot⟩, hnext | hexception⟩ :=
    hcorresponds.stops h htranslate hact hundefined
  · -- the VM is at an instruction that the activation does not get to
    obtain ⟨m'', hstep⟩ := hnext
    obtain ⟨s', hpasses', hisAt⟩ :=
      ((hfollows (n + 1)).offset m''.offset).mp ⟨m'', Machine.run_succ hrun hstep, rfl⟩
    obtain ⟨s₁, hfirst, hs₁, hlast⟩ := hpasses'.exists_last
    obtain rfl := hpasses.unique hat hfirst hs₁
    obtain ⟨offset, -, hmarker⟩ := hisAt
    exact hu.not_marked_of_stops (LocalState.goOn_of_undefined hstuck) hnot hlast ⟨offset, hmarker⟩
  · -- the VM raises an exception, which the activation does not return
    obtain ⟨v, state, hv, hret, -⟩ := (hfollows n).raises m' s hrun hpasses hat hexception
    obtain rfl := hu.stop_unique (LocalState.goOn_of_undefined hstuck) hv (LocalState.goOn_of_ret hret)
    exact Outcome.noConfusion (hstuck.symm.trans hret)

/-- **When a function over integers does what the AngelScript VM does with it**, for any number of
instructions: iff LLVM defines the operations of all the instructions that the VM comes to. -/
theorem followsVm_iff (h : IntegerFunction context bytecode)
    (htranslate : translateBytecode context bytecode = .ok T) (hact : Activates T env)
    (hs : s.position = (.entry, 0)) :
    (∀ n, FollowsVm context bytecode env (Machine.entry context env.args) s n) ↔
      ∀ n m, (Machine.entry context env.args).run bytecode n = some m → m.DefinedAt bytecode := by
  obtain ⟨s₁, hstart, hcorresponds⟩ := exists_corresponds_entry h htranslate hact hs
  refine ⟨fun hfollows n => ?_, followsVm_of_defined h htranslate hact hstart hcorresponds⟩
  -- the operations of all earlier instructions are defined
  induction n using Nat.strong_induction_on with
  | _ n ih =>
      intro m hrun
      by_contra hundefined
      obtain ⟨s', hpasses, hrelated⟩ :=
        (simulation h htranslate hact).forward hstart hcorresponds ih hrun
      exact not_followsVm h htranslate hact hpasses hrun hrelated hundefined hfollows

/-! ### The digits of a number -/

/-- A function that takes and returns an `int`, with two locals. -/
def digitsContext : FunctionContext where
  engine := .ofFunctions []
  config := ⟨false, true⟩
  scriptFunction := .free 1 (.primitive .ttInt) [.primitive .ttInt] 2

/-- The parameter is divided by the first local. -/
def digitsDivi : BytecodeInstruction := diviAt [0, 0x10000] 6

/-- The decimal digits of the parameter are counted: as long as it is positive, it is divided by ten. -/
def digitsBytecode : List BytecodeInstruction := [
  setV4At 10 0,
  ⟨[0, 0], ⟨.CMPIi, 2, 0, by decide⟩, 2⟩,
  ⟨[0, 5], ⟨.JNP, 2, 0, by decide⟩, 4⟩,
  digitsDivi,
  ⟨[0x20000], ⟨.IncVi, 1, 0, by decide⟩, 8⟩,
  jmpAt (-9) 9,
  cpyVtoR4At 0x20000 11,
  retAt 12]

theorem translateBytecode_digits : ∃ T, translateBytecode digitsContext digitsBytecode = .ok T ∧
    (T.stack.parameters, T.stack.totalSpace) = ([(0, ⟨1, .i32⟩)], 6) :=
  exists_ok_of_map (by decide +kernel)

theorem digitsBytecode_wellFormed : WellFormedBytecode digitsBytecode where
  walked := by
    simp [digitsBytecode, digitsDivi, setV4At, diviAt, jmpAt, cpyVtoR4At, retAt, WalkedFrom,
      BytecodeInstruction.next]
  targets := by decide
  closed := by
    have htarget : BranchTarget digitsBytecode 11 :=
      ⟨⟨[0, 5], ⟨.JNP, 2, 0, by decide⟩, 4⟩, by simp [digitsBytecode], by decide⟩
    simpa [digitsBytecode, digitsDivi, setV4At, diviAt, jmpAt, cpyVtoR4At, retAt,
      BytecodeInstruction.bc] using .inl htarget
  last := ⟨_, rfl, .inl rfl⟩

theorem digits_integerFunction : IntegerFunction digitsContext digitsBytecode where
  supported := {
    slots := by
      intro type htype
      have hslots : scriptCallSlots digitsContext.engine digitsContext.scriptFunction =
        [.primitive .ttInt] := rfl
      obtain rfl := List.mem_singleton.mp (hslots ▸ htype)
      exact DataType.primitive_supported (by decide) (by decide)
    returned := fun _ => rfl }
  returned := ⟨.i32, rfl⟩
  wellFormed := digitsBytecode_wellFormed
  fragment := by decide
  accesses := by
    have haccesses : ∀ ins ∈ digitsBytecode, ∀ v ∈ ins.accesses, v = (0, .i32) ∨ ¬ v.1 ≤ 0 ∧
        (v.2.storeSize : ℤ) ≤ 4 * v.1 ∧ v.1 ≤ digitsContext.variableSpace := by decide
    intro ins hins v hv
    rcases haccesses ins hins v hv with rfl | ⟨hlocal, hvariable⟩
    · exact ⟨0, .primitive .ttInt, rfl, rfl, rfl⟩
    · rw [FunctionContext.HasVariable, if_neg hlocal]
      exact hvariable

/-- The divisor is set first, and stays what it is. -/
theorem digits_divisor {m m' : Machine} (hm : m.offset ≠ 0 → m.dwords 1 = 10)
    (h : m.goOn digitsBytecode = some m') : m'.dwords 1 = 10 := by
  cases hcurrent : m.current digitsBytecode with
  | none =>
      rw [Machine.goOn, Machine.step, hcurrent] at h
      exact absurd h.symm (Option.some_ne_none _)
  | some ins =>
      have hins := List.mem_of_find?_eq_some hcurrent
      have ho : (ins.offset : ℤ) = m.offset := by simpa using List.find?_some hcurrent
      rw [Machine.goOn, Machine.step_of_current hcurrent] at h
      simp only [digitsBytecode, List.mem_cons, List.not_mem_nil, or_false] at hins
      rcases hins with rfl | rfl | rfl | rfl | rfl | rfl | rfl | rfl
      · obtain rfl := Option.some.inj h
        rfl
      · obtain rfl := Option.some.inj h
        exact hm (by rw [← ho]; decide)
      · obtain rfl := Option.some.inj h
        exact hm (by rw [← ho]; decide)
      · obtain ⟨hnext, hexception⟩ := @Machine.execute_ordinary m digitsDivi rfl rfl
        have hexec := @Machine.exec_integerOp digitsDivi m .i32 .sdiv rfl
        cases hresult : BinOp.sdiv.evalVm ((m.value digitsDivi.argSWord1 .i32).setWidth Ty.i32.bits)
            (m.rightOperand digitsDivi .sdiv .i32) with
        | none =>
            rw [hresult] at hexec
            rw [hexception hexec] at h
            exact absurd h.symm (Option.some_ne_none _)
        | some v =>
            rw [hresult] at hexec
            rw [hnext _ hexec] at h
            obtain rfl := Option.some.inj h
            exact hm (by rw [← ho]; decide)
      · obtain rfl := Option.some.inj h
        exact hm (by rw [← ho]; decide)
      · obtain rfl := Option.some.inj h
        exact hm (by rw [← ho]; decide)
      · obtain rfl := Option.some.inj h
        exact hm (by rw [← ho]; decide)
      · exact absurd h.symm (Option.some_ne_none _)

/-- LLVM defines every division that the VM comes to, whatever the parameter. -/
theorem digits_defined (args : List Word) (n : ℕ) (m : Machine)
    (hrun : (Machine.entry digitsContext args).run digitsBytecode n = some m) :
    m.DefinedAt digitsBytecode := by
  have hdivisor : m.offset ≠ 0 → m.dwords 1 = 10 :=
    @Lockstep.run_preserves _ _ (fun m => m.offset ≠ 0 → m.dwords 1 = 10) _ _ _
      (fun _ _ hm hstep _ => digits_divisor hm hstep) (fun h => absurd rfl h) hrun
  intro ins hcurrent
  have hins := List.mem_of_find?_eq_some hcurrent
  have ho : (ins.offset : ℤ) = m.offset := by simpa using List.find?_some hcurrent
  have hother : ∀ ins ∈ digitsBytecode, ins = digitsDivi ∨ ins.bc.integerOp = none := by decide
  rcases hother ins hins with rfl | hnone
  · intro op ty hop
    obtain ⟨rfl, rfl⟩ := Prod.mk.inj (Option.some.inj (show some (BinOp.sdiv, Ty.i32) = _ from hop))
    have hright : m.rightOperand digitsDivi .sdiv .i32 = (10 : BitVec 32) := by
      change ((m.dwords 1).setWidth 64).setWidth 32 = 10#32
      rw [hdivisor (by rw [← ho]; decide)]
      decide
    rw [hright]
    exact ⟨⟨show (10 : BitVec 32) ≠ 0 by decide,
      fun h => absurd (show (10 : BitVec 32) = -1 from h.2) (by decide)⟩, fun h => Bool.noConfusion h⟩
  · intro op ty hop
    exact absurd (hop.symm.trans hnone) (Option.some_ne_none _)

theorem digits_finishes : ∃ m, (Machine.entry digitsContext [512, 345]).run digitsBytecode 19 = some m ∧
    m.valueRegister = 3 ∧ m.step digitsBytecode = .finished := by
  have hrun : (((Machine.entry digitsContext [512, 345]).run digitsBytecode 19).map fun m =>
      (m.valueRegister, m.offset)) = some (3, 12) := by decide +kernel
  obtain ⟨m, hm, hvalue⟩ := Option.map_eq_some_iff.mp hrun
  obtain ⟨hvalue, ho⟩ := Prod.mk.inj hvalue
  have hcurrent : m.current digitsBytecode = some (retAt 12) := by
    rw [Machine.current, ho]
    rfl
  refine ⟨m, hm, hvalue, ?_⟩
  rw [Machine.step_of_current hcurrent]
  rfl

/-- The digits of 345, in a memory of ones. -/
theorem followsVm_iff_digits : ∃ T env s, translateBytecode digitsContext digitsBytecode = .ok T ∧
    Activates T env ∧ env.args = [512, 345] ∧
      (∀ n, FollowsVm digitsContext digitsBytecode env (Machine.entry digitsContext env.args) s n) ∧
        ∃ m', (Machine.entry digitsContext env.args).run digitsBytecode 19 = some m' ∧
          m'.valueRegister = 3 ∧ m'.step digitsBytecode = .finished := by
  obtain ⟨T, hT, hstack⟩ := translateBytecode_digits
  obtain ⟨hparameters, htotal⟩ := Prod.mk.inj hstack
  have hact := T.activates_env (by omega) [512, 345] (by rw [hparameters]; decide)
  exact ⟨T, _, ⟨(.entry, 0), fun _ => 0, fun _ => 1, none⟩, hT, hact, rfl,
    (followsVm_iff digits_integerFunction hT hact rfl).mpr (digits_defined _), digits_finishes⟩

/-! ### A shift -/

/-- The fourth variable, of 64 bits, shifted by the first one, of 32 bits. -/
def shiftBsll64 : BytecodeInstruction := ⟨[0x40000, 0x10004], ⟨.BSLL64, 2, 0, by decide⟩, 0⟩

/-- A shift of a variable. -/
def shiftBytecode : List BytecodeInstruction := [shiftBsll64, retAt 2]

theorem translateBytecode_shift : ∃ T, translateBytecode loopContext shiftBytecode = .ok T ∧
    (T.stack.parameters, T.stack.totalSpace) = ([], 8) :=
  exists_ok_of_map (by decide +kernel)

theorem shiftBytecode_integerFunction : IntegerFunction loopContext shiftBytecode where
  supported := {
    slots := by
      intro type htype
      have hslots : scriptCallSlots loopContext.engine loopContext.scriptFunction = [] := rfl
      exact absurd (hslots ▸ htype) List.not_mem_nil
    returned := fun _ => rfl }
  returned := ⟨.void, rfl⟩
  wellFormed := {
    walked := by simp [shiftBytecode, shiftBsll64, retAt, WalkedFrom, BytecodeInstruction.next]
    targets := by decide
    closed := by simp [shiftBytecode, shiftBsll64, retAt, BytecodeInstruction.bc]
    last := ⟨_, rfl, .inl rfl⟩ }
  fragment := by decide
  accesses := by
    have haccesses : ∀ ins ∈ shiftBytecode, ∀ v ∈ ins.accesses, ¬ v.1 ≤ 0 ∧
        (v.2.storeSize : ℤ) ≤ 4 * v.1 ∧ v.1 ≤ loopContext.variableSpace := by decide
    intro ins hins v hv
    obtain ⟨hlocal, hvariable⟩ := haccesses ins hins v hv
    rw [FunctionContext.HasVariable, if_neg hlocal]
    exact hvariable

/-- **A shift by the first variable** is not what the VM does: the eight bytes that are loaded for its
count reach beyond the storage. -/
theorem shift_not_followsVm : ∃ T env, translateBytecode loopContext shiftBytecode = .ok T ∧
    Activates T env ∧ IntegerFunction loopContext shiftBytecode ∧
      ∀ s, s.position = (.entry, 0) → ¬ ∀ n, FollowsVm loopContext shiftBytecode env
        (Machine.entry loopContext env.args) s n := by
  obtain ⟨T, hT, hstack⟩ := translateBytecode_shift
  obtain ⟨hparameters, htotal⟩ := Prod.mk.inj hstack
  have hact := T.activates_env (by omega) [] (by rw [hparameters]; decide)
  have hfunction := shiftBytecode_integerFunction
  refine ⟨T, _, hT, hact, hfunction, fun s hs => ?_⟩
  obtain ⟨s₁, hstart, hcorresponds⟩ := exists_corresponds_entry hfunction hT hact hs
  refine not_followsVm hfunction hT hact hstart rfl hcorresponds fun hdefined => ?_
  have hcount := ((hdefined shiftBsll64 rfl) .shl .i64 rfl).2 rfl rfl
  exact absurd hcount.1 (by decide)

end Run

end Asllvm
