import Mathlib.Logic.Relation
import Asllvm.Remaining
import Asllvm.NullChecks

/-!
# Behaviours of Objects

`FREE` releases the object of a variable, `REFCPY` and `RefCpyV` copy a reference to one. Which
pointer they hand to a behaviour is a matter of the variables at that time: nothing in their code
tests it, and `FREE` leaves the pointer in its variable. An execution is followed with the variables
that were released and not assigned since (`Tracked`).

* `BytecodeInstruction.passedObject` — the variable whose object an instruction hands to a behaviour.
* `Tracked.step` — a step of an execution, and what it does to the released variables.
* `Tracked.BreaksLaw` — a behaviour is about to be called on nothing, or on a released object.
* `Tracked.PassesLiveObject` — the next instruction hands over a live object, if it hands over any.

## Main results

* `CodeOf.passes` — the code of an instruction that hands an object to a behaviour.
* `Tracked.step_lawful` — the invariant of an execution: the calls that lie ahead are lawful.
* `behaviours_lawful_iff` — when an execution calls behaviours on live objects only.
-/

open StateExcept

namespace Asllvm

/-! ### Executions -/

/-- The variable that holds the object which an instruction hands to a behaviour: the variable that
`FREE` releases, or the reference that `REFCPY` or `RefCpyV` copies. -/
def BytecodeInstruction.passedObject (ins : BytecodeInstruction) (engine : Engine) (sp : ℤ) :
    Option ℤ :=
  let objectType := engine.objectTypeAt ins.argPWord
  match ins.bc with
  | .FREE =>
      if objectType.isRef && objectType.beh.release == 0 then none else some ins.argSWord0
  | .REFCPY =>
      if objectType.isNoCount || objectType.beh.addref == 0 then none else some (sp - asPtrSize)
  | .RefCpyV => if objectType.isNoCount then none else some sp
  | _ => none

/-- An **execution**, as far as it has come: the calls made so far, the state of the activation, the
addresses of the variables that `FREE` has released and that have not been assigned since, and
whether the current instruction is a `FREE` of such a variable. -/
structure Tracked where
  calls : List Request
  state : LocalState
  freed : List ℕ
  again : Bool

/-- The address and the number of the bytes that an instruction writes. -/
def Instr.written (env : Env) (regs : Regs) : Instr → Option (ℕ × ℕ)
  | .store ty _ ptr => some ((ptr.eval env regs).toNat, ty.storeSize)
  | .memset ptr _ bytes => some ((ptr.eval env regs).toNat, bytes)
  | _ => none

/-- An instruction leaves the pointer variable at an address alone. -/
def Instr.leavesVariable (env : Env) (regs : Regs) (i : Instr) (address : ℕ) : Bool :=
  match i.written env regs with
  | some (start, n) => address + 8 ≤ start || start + n ≤ address
  | none => true

/-- The variable that the instruction at an offset releases, if it is a `FREE` that does. -/
def releasedVariable (stack : StackFrame) (bytecode : List BytecodeInstruction)
    (layout : FrameLayout) (o : ℕ) : Option ℕ :=
  (bytecode.find? fun ins => ins.offset == o && ins.bc == .FREE).bind fun ins =>
    (ins.passedObject stack.engine 0).map (stack.byteAddress layout)

namespace Tracked

/-- An execution that has not begun yet. -/
def entry (s : LocalState) : Tracked := ⟨[], s, [], false⟩

/-- **A step of an execution.** A variable counts as assigned when an instruction writes it, or when
a call leaves something else in it. -/
def step (T : Translation) (bytecode : List BytecodeInstruction) (env : Env) (host : Host)
    (t : Tracked) : Option Tracked :=
  match t.state.step env with
  | .next s =>
      match itemAt env.blocks t.state.position with
      | some (.marker o) =>
          let released := (releasedVariable T.stack bytecode env.layout o).toList
          some { t with
            state := s
            freed := released ++ t.freed
            again := released.any (· ∈ t.freed) }
      | some (.instr i) =>
          some { t with
            state := s
            freed := t.freed.filter (i.leavesVariable env t.state.regs) }
      | _ => some { t with state := s }
  | .call dst callee args =>
      let request : Request := ⟨callee, args.map (·.eval env t.state.regs), t.state.mem⟩
      let (value, mem) := host (request :: t.calls)
      some { t with
        calls := request :: t.calls
        state := t.state.resume dst value mem
        freed := t.freed.filter fun a => Bytes.read mem a 8 == Bytes.read t.state.mem a 8 }
  | _ => none

/-- An execution goes on to another point of it. -/
def Reaches (T : Translation) (bytecode : List BytecodeInstruction) (env : Env) (host : Host) :
    Tracked → Tracked → Prop :=
  Relation.ReflTransGen fun t t' => t.step T bytecode env host = some t'

/-- **The law is broken**: a behaviour is about to be called with a null pointer, or through a
variable that was released and not assigned since. -/
def BreaksLaw (env : Env) (t : Tracked) : Prop :=
  ∃ dst f args, t.state.step env = .call dst (.runtime f) args ∧ f.isBehaviour = true ∧
    ((args.map (·.eval env t.state.regs)).head? = some 0 ∨ t.again = true)

/-- **The instruction at hand gets a live object**, if it hands one to a behaviour: a pointer that is
not null, from a variable that is not a released one. -/
def PassesLiveObject (stack : StackFrame) (env : Env) (ins : BytecodeInstruction) (sp : ℤ)
    (t : Tracked) : Prop :=
  ∀ o, ins.passedObject stack.engine sp = some o →
    Bytes.read t.state.mem (stack.byteAddress env.layout o) 8 ≠ 0 ∧
      (ins.bc = .FREE → stack.byteAddress env.layout o ∉ t.freed)

end Tracked

/-! ### Lawful code -/

/-- Every call of a behaviour in some code gets a pointer that is not null; there is none in the code
of a `FREE` of a released variable. -/
def CallsLawfully (env : Env) (host : Host) (again : Bool) : List Piece → Progress → Prop
  | [], _ => True
  | .instr (.call dst callee args) :: ps, p =>
      (∀ f, callee = .runtime f → f.isBehaviour = true →
        (args.map (·.eval env p.regs)).head? ≠ some 0 ∧ again = false) ∧
      CallsLawfully env host again ps (p.call host dst callee (args.map (·.eval env p.regs)))
  | .instr i :: ps, p => ∀ regs mem, i.exec env p.regs p.world.mem = some (regs, mem) →
      CallsLawfully env host again ps ⟨regs, mem, p.world.calls⟩
  | .check _ _ :: ps, p => CallsLawfully env host again ps p

section Lawful

variable {env : Env} {host : Host} {again : Bool} {ps qs : List Piece} {p : Progress}

/-- An instruction other than a call. -/
theorem callsLawfully_instr {i : Instr} (hcall : ∀ dst callee args, i ≠ .call dst callee args) :
    CallsLawfully env host again (.instr i :: ps) p ↔
      ∀ regs mem, i.exec env p.regs p.world.mem = some (regs, mem) →
        CallsLawfully env host again ps ⟨regs, mem, p.world.calls⟩ := by
  cases i with
  | call dst callee args => exact absurd rfl (hcall dst callee args)
  | _ => exact Iff.rfl

/-- An instruction that LLVM defines the effect of is no call. -/
theorem Instr.ne_call_of_exec {i : Instr} {regs regs' : Regs} {mem mem' : Bytes.Mem}
    (h : i.exec env regs mem = some (regs', mem')) (dst : Option ℕ) (callee : Callee)
    (args : List Value) : i ≠ .call dst callee args := by
  rintro rfl
  exact Option.some_ne_none _ h.symm

/-- **Mute code is lawful**, by induction on it. -/
theorem Mute.callsLawfully (h : Mute ps) : CallsLawfully env host again ps p := by
  induction ps generalizing p with
  | nil => trivial
  | cons piece ps ih =>
      have hrest : Mute ps := fun piece' hpiece' => h piece' (List.mem_cons_of_mem _ hpiece')
      have hpiece := h piece List.mem_cons_self
      cases piece with
      | check cond state => exact ih hrest
      | instr i =>
          cases i with
          | call dst callee args =>
              refine ⟨?_, ih hrest⟩
              rintro f rfl hf
              exact absurd (hf.symm.trans hpiece) Bool.noConfusion
          | _ => exact fun regs mem _ => ih hrest

/-- Calls of behaviours on the object in a register. -/
def CallsOn (r : ℕ) (ps : List Piece) : Prop :=
  ∀ piece ∈ ps, ∃ f args, f.isBehaviour = true ∧
    piece = .instr (.call none (.runtime f) (⟨.reg r, .pvoid⟩ :: args))

/-- Calls on an object that is not null are lawful, by induction on them. -/
theorem CallsOn.callsLawfully {r : ℕ} (h : CallsOn r ps) (hr : p.regs r ≠ 0)
    (hrest : ∀ world, CallsLawfully env host false qs ⟨p.regs, world⟩) :
    CallsLawfully env host false (ps ++ qs) p := by
  induction ps generalizing p with
  | nil => exact hrest p.world
  | cons piece ps ih =>
      obtain ⟨f, args, -, rfl⟩ := h piece List.mem_cons_self
      refine ⟨fun _ _ _ => ⟨?_, rfl⟩, ih (fun piece' hpiece' => h piece' (List.mem_cons_of_mem _ hpiece'))
        hr hrest⟩
      rw [List.map_cons, List.head?_cons, Value.eval, Ty.truncate_ptr]
      exact fun hnull => hr (Option.some.inj hnull)

end Lawful

/-! ### The code of the instructions -/

/-- Code that loads a variable and hands its object to a behaviour; `REFCPY` loads the destination
before. -/
def PassesObject (stack : StackFrame) (ins : BytecodeInstruction) (sp o : ℤ) (ps : List Piece) :
    Prop :=
  ∃ before r f args calls rest,
    ps = before ++ .instr (.load r .pvoid (stack.slotAddress o)) ::
      (.instr (.call none (.runtime f) (⟨.reg r, .pvoid⟩ :: args)) :: (calls ++ rest)) ∧
    f.isBehaviour = true ∧ CallsOn r calls ∧ Mute rest ∧
    (before = [] ∨ ins.bc = .REFCPY ∧ ∃ k, before =
      [.instr (.load k (.ptr .pvoid) (stack.slotAddress sp))])

section Code

variable {context : FunctionContext} {bytecode : List BytecodeInstruction}
  {ins : BytecodeInstruction} {T : Translation} {stack : StackFrame} {sp o : ℤ} {ps : List Piece}
  {p q : Position} {e e' : EmitState}

/-- The code of an instruction, by the variable whose object it hands to a behaviour. -/
def HandsOver (stack : StackFrame) (ins : BytecodeInstruction) (sp : ℤ) (ps : List Piece) :
    Option ℤ → Prop
  | some o => PassesObject stack ins sp o ps
  | none => Mute ps

theorem runs_emitObjectMethodCall {id : ℤ} {object : Value} {u : Unit} :
    Runs (emitObjectMethodCall id object) e u e' ↔
      e' = e.extend 0 [.instr (.call none (.runtime .callObjectMethod)
        [object, ⟨.descriptor id, .pvoid⟩])] := by
  simp [emitObjectMethodCall]

theorem runs_emitAddRef {objectType : ObjectType} {object : Value} {u : Unit} :
    Runs (emitAddRef objectType object) e u e' ↔
      e' = e.extend 0 [.instr (.call none (.runtime .callObjectMethod)
        [object, ⟨.descriptor objectType.beh.addref, .pvoid⟩])] := by
  simp [emitAddRef]

/-- The code of `FREE`. -/
theorem translateFree_handsOver (hbc : ins.bc = .FREE) (hout : e.out = [])
    (h : Runs (translateFree stack ins) e () e') :
    HandsOver stack ins sp e'.out (ins.passedObject stack.engine sp) := by
  have hpassed : ins.passedObject stack.engine sp =
      let objectType := stack.engine.objectTypeAt ins.argPWord
      if objectType.isRef && objectType.beh.release == 0 then none else some ins.argSWord0 := by
    rw [BytecodeInstruction.passedObject, hbc]
  rw [hpassed]
  simp only [translateFree, runs_bind, StackFrame.runs_pointerToAs, runs_createLoad] at h
  obtain ⟨_, _, ⟨-, rfl, rfl⟩, _, _, ⟨rfl, rfl⟩, h⟩ := h
  dsimp only
  split at h
  · rename_i href
    simp only [runs_bind, runs_asllvmAssert] at h
    obtain ⟨_, _, ⟨-, rfl⟩, h⟩ := h
    rw [href, Bool.true_and]
    by_cases hrelease : (stack.engine.objectTypeAt ins.argPWord).beh.release = 0
    · rw [hrelease, if_neg (not_not_intro rfl), runs_pure] at h
      rw [hrelease, beq_self_eq_true, if_pos rfl, h.2, EmitState.extend_out, hout]
      exact .cons rfl .nil
    · rw [if_pos hrelease, runs_emitObjectMethodCall] at h
      rw [if_neg (by simpa using hrelease), h, EmitState.extend_out, EmitState.extend_out, hout]
      exact ⟨[], _, .callObjectMethod, _, [], [], rfl, rfl,
        fun _ h => absurd h List.not_mem_nil, .nil, .inl rfl⟩
  · rename_i href
    rw [Bool.not_eq_true] at href
    rw [href, Bool.false_and, if_neg Bool.false_ne_true]
    by_cases hdestruct : (stack.engine.objectTypeAt ins.argPWord).beh.destruct = 0
    · rw [hdestruct, if_neg (not_not_intro rfl)] at h
      simp only [runs_bind, runs_createCall_void, runs_pure] at h
      obtain ⟨_, _, ⟨-, rfl⟩, -, rfl⟩ := h
      rw [EmitState.extend_out, EmitState.extend_out, hout]
      exact ⟨[], _, .free, _, [], [], rfl, rfl, fun _ h => absurd h List.not_mem_nil, .nil, .inl rfl⟩
    · rw [if_pos hdestruct] at h
      simp only [runs_bind, runs_emitObjectMethodCall, runs_createCall_void, runs_pure] at h
      obtain ⟨_, _, rfl, _, _, ⟨-, rfl⟩, -, rfl⟩ := h
      rw [EmitState.extend_out, EmitState.extend_out, EmitState.extend_out, hout]
      refine ⟨[], _, .callObjectMethod, _, [_], [], rfl, rfl, fun piece hpiece => ?_, .nil, .inl rfl⟩
      exact ⟨.free, [], rfl, List.mem_singleton.mp hpiece⟩

/-- The code of `REFCPY`. -/
theorem translateRefCpy_handsOver (hbc : ins.bc = .REFCPY) (hout : e.out = [])
    (h : Runs (translateRefCpy stack ins) e () e') :
    HandsOver stack ins e.stackPointer e'.out (ins.passedObject stack.engine e.stackPointer) := by
  have hpassed : ins.passedObject stack.engine e.stackPointer =
      let objectType := stack.engine.objectTypeAt ins.argPWord
      if objectType.isNoCount || objectType.beh.addref == 0 then none
      else some (e.stackPointer - asPtrSize) := by
    rw [BytecodeInstruction.passedObject, hbc]
  rw [hpassed]
  simp only [translateRefCpy, runs_bind, StackFrame.runs_pop, StackFrame.runs_top] at h
  obtain ⟨_, _, ⟨-, rfl, rfl⟩, _, _, ⟨-, rfl, rfl⟩, h⟩ := h
  dsimp only
  cases hcounted : !(stack.engine.objectTypeAt ins.argPWord).isNoCount &&
    (stack.engine.objectTypeAt ins.argPWord).beh.addref != 0 with
  | false =>
      rw [hcounted, if_neg Bool.false_ne_true, runs_createStore] at h
      have huncounted : ((stack.engine.objectTypeAt ins.argPWord).isNoCount ||
          (stack.engine.objectTypeAt ins.argPWord).beh.addref == 0) = true := by
        rw [← Bool.not_eq_false', Bool.not_or]
        exact hcounted
      rw [if_pos huncounted, h]
      simp only [EmitState.extend_out, EmitState.move_out, hout]
      exact .cons rfl (.cons rfl (.cons rfl .nil))
  | true =>
      rw [hcounted, if_pos rfl] at h
      simp only [runs_bind, runs_emitAddRef, runs_createStore] at h
      obtain ⟨_, _, rfl, rfl⟩ := h
      rw [if_neg (by simpa using hcounted)]
      simp only [EmitState.extend_out, EmitState.move_out, hout]
      exact ⟨[_], _, .callObjectMethod, _, [], [_], rfl, rfl, fun _ h => absurd h List.not_mem_nil,
        .cons rfl .nil, .inr ⟨hbc, _, rfl⟩⟩

/-- The code of `RefCpyV`. -/
theorem translateRefCpyV_handsOver (hbc : ins.bc = .RefCpyV) (hout : e.out = [])
    (h : Runs (translateRefCpyV stack ins) e () e') :
    HandsOver stack ins e.stackPointer e'.out (ins.passedObject stack.engine e.stackPointer) := by
  have hpassed : ins.passedObject stack.engine e.stackPointer =
      if (stack.engine.objectTypeAt ins.argPWord).isNoCount then none
      else some e.stackPointer := by
    rw [BytecodeInstruction.passedObject, hbc]
  rw [hpassed]
  simp only [translateRefCpyV, runs_bind, StackFrame.runs_pointerToAs, StackFrame.runs_top] at h
  obtain ⟨_, _, ⟨-, rfl, rfl⟩, _, _, ⟨-, rfl, rfl⟩, h⟩ := h
  cases hcount : (stack.engine.objectTypeAt ins.argPWord).isNoCount with
  | true =>
      rw [hcount, if_neg (by decide), runs_createStore] at h
      rw [if_pos rfl, h, EmitState.extend_out, EmitState.extend_out, hout]
      exact .cons rfl (.cons rfl .nil)
  | false =>
      rw [hcount, if_pos Bool.not_false] at h
      simp only [runs_bind, runs_emitAddRef, runs_createStore] at h
      obtain ⟨_, _, rfl, rfl⟩ := h
      rw [if_neg Bool.false_ne_true, EmitState.extend_out, EmitState.extend_out,
        EmitState.extend_out, hout]
      exact ⟨[], _, .callObjectMethod, _, [], [_], rfl, rfl, fun _ h => absurd h List.not_mem_nil,
        .cons rfl .nil, .inl rfl⟩

/-- **The code of an instruction hands over the object that the instruction does**, and no other
one. -/
theorem CodeOf.handsOver (h : CodeOf context T bytecode ins sp ps p q) :
    HandsOver T.stack ins sp ps (ins.passedObject T.stack.engine sp) := by
  cases hcalls : ins.bc.callsBehaviour with
  | false =>
      have hnone : ins.passedObject T.stack.engine sp = none := by
        rw [BytecodeInstruction.passedObject]
        cases hbc : ins.bc <;> rw [hbc] at hcalls <;> first | rfl | exact Bool.noConfusion hcalls
      obtain ⟨st, t, s', -, -, rfl, hruns, -, -⟩ := h
      obtain ⟨ps, hout, hmute⟩ :=
        (translateOpcode_emits_mute T.stack T.jumps ins hcalls).effect hruns
      rw [hnone, hout]
      exact hmute
  | true =>
      rcases Opcode.callsBehaviour_iff.mp hcalls with hbc | hbc | hbc
      · obtain ⟨e, e', rfl, hout, rfl, hruns⟩ := h.ordinary (by rw [hbc]; rfl)
        rw [translateOrdinary, hbc] at hruns
        exact translateFree_handsOver hbc hout hruns
      · obtain ⟨e, e', rfl, hout, rfl, hruns⟩ := h.ordinary (by rw [hbc]; rfl)
        rw [translateOrdinary, hbc] at hruns
        exact translateRefCpy_handsOver hbc hout hruns
      · obtain ⟨e, e', rfl, hout, rfl, hruns⟩ := h.ordinary (by rw [hbc]; rfl)
        rw [translateOrdinary, hbc] at hruns
        exact translateRefCpyV_handsOver hbc hout hruns

end Code

/-! ### The invariant of an execution -/

section Executions

variable {context : FunctionContext} {bytecode : List BytecodeInstruction}
  {ins : BytecodeInstruction} {T : Translation} {sp o : ℤ} {ps : List Piece} {p q : Position}
  {env : Env} {host : Host} {t t' : Tracked}

/-- **The invariant**: the calls that lie ahead in the code of the instruction at hand are
lawful. -/
def Tracked.Lawful (env : Env) (host : Host) (t : Tracked) : Prop :=
  ∃ ps, Remains env.blocks t.state.position ps ∧
    CallsLawfully env host t.again ps ⟨t.state.regs, t.state.mem, t.calls⟩

/-- The law is not broken where the invariant holds. -/
theorem Tracked.Lawful.not_breaksLaw (h : t.Lawful env host) : ¬ t.BreaksLaw env := by
  rintro ⟨dst, f, args, hstep, hf, hbreaks⟩
  obtain ⟨ps, hremains, hlawful⟩ := h
  obtain ⟨ps', rfl, -⟩ := hremains.call hstep
  obtain ⟨hnull, hagain⟩ := hlawful.1 f rfl hf
  rcases hbreaks with hzero | hreleased
  · exact hnull hzero
  · exact Bool.noConfusion (hagain.symm.trans hreleased)

/-- **The code of an instruction that gets a live object is lawful.** -/
theorem HandsOver.callsLawfully (hcode : HandsOver T.stack ins sp ps
      (ins.passedObject T.stack.engine sp)) (hact : Activates T env)
    (hframe : ∀ o, ins.passedObject T.stack.engine sp = some o → T.stack.InFrame o 8)
    {again : Bool} {p : Progress}
    (hlive : ∀ o, ins.passedObject T.stack.engine sp = some o →
      Bytes.read p.world.mem (T.stack.byteAddress env.layout o) 8 ≠ 0 ∧ again = false) :
    CallsLawfully env host again ps p := by
  cases hpassed : ins.passedObject T.stack.engine sp with
  | none =>
      rw [hpassed] at hcode
      exact Mute.callsLawfully hcode
  | some o =>
      obtain ⟨hread, rfl⟩ := hlive o hpassed
      rw [hpassed] at hcode
      obtain ⟨before, r, f, args, calls, rest, rfl, hf, hcalls, hrest, hbefore⟩ := hcode
      -- what is loaded is the object, whatever was loaded before
      have hloaded : ∀ regs, CallsLawfully env host false (.instr (.load r .pvoid
          (T.stack.slotAddress o)) :: (.instr (.call none (.runtime f) (⟨.reg r, .pvoid⟩ :: args)) ::
            (calls ++ rest))) ⟨regs, p.world⟩ := by
        intro regs regs' mem' hexec
        have hload := exec_load_pointer .i8 hact (hframe o hpassed) regs p.world.mem r
        obtain ⟨rfl, rfl⟩ := Prod.mk.inj (Option.some.inj (hload.symm.trans hexec))
        have hon : CallsOn r (.instr (.call none (.runtime f) (⟨.reg r, .pvoid⟩ :: args)) ::
            calls) := List.forall_mem_cons.mpr ⟨⟨f, args, hf, rfl⟩, hcalls⟩
        refine hon.callsLawfully ?_ fun _ => hrest.callsLawfully
        dsimp only
        rwa [Function.update_self]
      rcases hbefore with rfl | ⟨-, k, rfl⟩
      · exact hloaded p.regs
      · intro regs mem hexec
        rw [Instr.exec] at hexec
        split at hexec
        · obtain ⟨rfl, rfl⟩ := Prod.mk.inj (Option.some.inj hexec)
          exact hloaded _
        · exact absurd hexec (Option.some_ne_none _).symm

/-- An offset is that of one instruction. -/
theorem eq_of_offset_eq {ins' : BytecodeInstruction} (hwalked : Walked bytecode)
    (h : translateBytecode context bytecode = .ok T) (hins : ins ∈ bytecode)
    (hins' : ins' ∈ bytecode) (ho : ins.offset = ins'.offset) : ins = ins' := by
  obtain ⟨st, p, hat⟩ := exists_located hwalked h hins
  obtain ⟨st', p', hat'⟩ := exists_located hwalked h hins'
  exact (hat.det hwalked h hat' ho).1

/-- **The variable that is released at an offset** is that of the `FREE` there, if one is there. -/
theorem CodeOf.releasedVariable_eq (hcode : CodeOf context T bytecode ins sp ps p q)
    (hwalked : Walked bytecode) (h : translateBytecode context bytecode = .ok T)
    (layout : FrameLayout) : releasedVariable T.stack bytecode layout ins.offset =
      if ins.bc = .FREE then
        (ins.passedObject T.stack.engine sp).map (T.stack.byteAddress layout)
      else none := by
  have hins : ins ∈ bytecode := by
    obtain ⟨st, t, s', hat, -⟩ := hcode
    exact hat.mem
  rw [releasedVariable]
  split
  · rename_i hbc
    have hfind : bytecode.find? (fun ins' => ins'.offset == ins.offset && ins'.bc == .FREE) =
        some ins := by
      cases hfind : bytecode.find? (fun ins' => ins'.offset == ins.offset && ins'.bc == .FREE) with
      | none =>
          have hnone := List.find?_eq_none.mp hfind ins hins
          simp [hbc] at hnone
      | some ins' =>
          have hfound := List.find?_some hfind
          rw [Bool.and_eq_true, beq_iff_eq] at hfound
          rw [eq_of_offset_eq hwalked h (List.mem_of_find?_eq_some hfind) hins hfound.1]
    rw [hfind, Option.bind_some, BytecodeInstruction.passedObject, BytecodeInstruction.passedObject,
      hbc]
  · rename_i hbc
    have hfind : bytecode.find? (fun ins' => ins'.offset == ins.offset && ins'.bc == .FREE) =
        none := by
      rw [List.find?_eq_none]
      intro ins' hins' hfound
      rw [Bool.and_eq_true, beq_iff_eq, beq_iff_eq] at hfound
      exact hbc (eq_of_offset_eq hwalked h hins' hins hfound.1 ▸ hfound.2)
    rw [hfind, Option.bind_none]

/-- A `FREE` of a variable that is not a released one does not release it again, and no other
instruction does. -/
theorem CodeOf.not_again (hcode : CodeOf context T bytecode ins sp ps p q)
    (hwalked : Walked bytecode) (h : translateBytecode context bytecode = .ok T)
    {layout : FrameLayout} {freed : List ℕ}
    (hfreed : ∀ o, ins.passedObject T.stack.engine sp = some o → ins.bc = .FREE →
      T.stack.byteAddress layout o ∉ freed) :
    (releasedVariable T.stack bytecode layout ins.offset).toList.any (· ∈ freed) = false := by
  rw [hcode.releasedVariable_eq hwalked h layout]
  split
  · rename_i hbc
    cases hpassed : ins.passedObject T.stack.engine sp with
    | none => rfl
    | some o => simpa using hfreed o hpassed hbc
  · rfl

/-- Every variable whose object an instruction hands over lies in the frame. -/
def FramesObjects (context : FunctionContext) (T : Translation)
    (bytecode : List BytecodeInstruction) : Prop :=
  ∀ ins sp ps p q, CodeOf context T bytecode ins sp ps p q →
    (∀ o, ins.passedObject T.stack.engine sp = some o → T.stack.InFrame o 8) ∧
      (ins.bc = .REFCPY → T.stack.InFrame sp 8)

/-- Every instruction that an execution comes to gets a live object, if it hands one over. -/
def Tracked.HandsLiveObjects (context : FunctionContext) (T : Translation)
    (bytecode : List BytecodeInstruction) (env : Env) (t : Tracked) : Prop :=
  ∀ ins sp ps p q, CodeOf context T bytecode ins sp ps p q → t.state.position = p →
    t.PassesLiveObject T.stack env ins sp

/-- **A step keeps the invariant**, if the instruction at hand gets a live object. -/
theorem Tracked.step_lawful (hwalked : Walked bytecode)
    (h : translateBytecode context bytecode = .ok T) (hact : Activates T env)
    (hframe : FramesObjects context T bytecode) (hlawful : t.Lawful env host)
    (hlive : t.HandsLiveObjects context T bytecode env)
    (hstep : t.step T bytecode env host = some t') : t'.Lawful env host := by
  obtain ⟨ps, hremains, hcalls⟩ := hlawful
  rw [Tracked.step] at hstep
  split at hstep
  · rename_i s' hnext
    rcases hremains.next hnext with ⟨ps', hadvances, hremains'⟩ | ⟨rfl, o, hmarker, rfl⟩
    · -- the first of the pieces ahead is used up
      cases hadvances with
      | instr hitem hexec =>
          rw [hitem] at hstep
          obtain rfl := Option.some.inj hstep
          rw [callsLawfully_instr (Instr.ne_call_of_exec hexec)] at hcalls
          exact ⟨ps', hremains', hcalls _ _ hexec⟩
      | passes hitem _ =>
          rw [hitem] at hstep
          obtain rfl := Option.some.inj hstep
          exact ⟨ps', hremains', hcalls⟩
      | fires hitem _ _ | branch hitem =>
          rw [hitem] at hstep
          obtain rfl := Option.some.inj hstep
          exact ⟨[], hremains', trivial⟩
    · -- the code of an instruction starts
      rw [hmarker] at hstep
      obtain rfl := Option.some.inj hstep
      rw [hact.blocks] at hmarker hremains
      obtain ⟨ins, sp, ps, q, rfl, hcode⟩ := exists_codeOf_of_marker hwalked h hmarker
      have hpassed := hlive ins sp ps _ q hcode rfl
      have hagain := hcode.not_again hwalked h fun o ho => (hpassed o ho).2
      refine ⟨ps, hact.blocks ▸ hcode.remains hwalked h hremains.1, ?_⟩
      exact hcode.handsOver.callsLawfully hact (hframe ins sp ps _ q hcode).1
        fun o ho => ⟨(hpassed o ho).1, hagain⟩
  · rename_i dst callee args hcall
    obtain ⟨ps', rfl, hremains'⟩ := hremains.call hcall
    obtain rfl := Option.some.inj hstep
    exact ⟨ps', hremains', hcalls.2⟩
  · exact absurd hstep (Option.some_ne_none _).symm

/-- The invariant holds at the entry of a function. -/
theorem Tracked.entry_lawful (hwalked : Walked bytecode)
    (h : translateBytecode context bytecode = .ok T) (hact : Activates T env) {s : LocalState}
    (hs : s.position = (.entry, 0)) : (Tracked.entry s).Lawful env host := by
  obtain ⟨s₀, hlocal, hremains⟩ := translateBytecode_entry_remains hwalked h
  obtain ⟨ps, hout, hmute⟩ := (emitAllocateLocalStructures_emits_mute context).effect hlocal
  refine ⟨s₀.out, ?_, ?_⟩
  · rw [hact.blocks, Tracked.entry, hs]
    exact hremains
  · rw [hout]
    exact Mute.callsLawfully hmute

/-- **An execution all of whose instructions get live objects** keeps the invariant, by induction on
the execution. -/
theorem Tracked.reaches_lawful (hwalked : Walked bytecode)
    (h : translateBytecode context bytecode = .ok T) (hact : Activates T env)
    (hframe : FramesObjects context T bytecode) (hlawful : t.Lawful env host)
    (hlive : ∀ u, t.Reaches T bytecode env host u → u.HandsLiveObjects context T bytecode env)
    (hreaches : t.Reaches T bytecode env host t') : t'.Lawful env host := by
  induction hreaches with
  | refl => exact hlawful
  | tail hreached hstep ih =>
      exact Tracked.step_lawful hwalked h hact hframe ih (hlive _ hreached) hstep

/-! ### Calls that are come to -/

/-- The start of the code of an instruction. -/
theorem Tracked.step_marker {n : ℕ} (hitem : itemAt env.blocks t.state.position = some (.marker n)) :
    t.step T bytecode env host = some { t with
      state := { t.state with position := t.state.position.next, current := some n }
      freed := (releasedVariable T.stack bytecode env.layout n).toList ++ t.freed
      again := (releasedVariable T.stack bytecode env.layout n).toList.any (· ∈ t.freed) } := by
  rw [Tracked.step, LocalState.step_marker hitem]
  dsimp only
  rw [hitem]

/-- An instruction other than a call. -/
theorem Tracked.step_instr {i : Instr} {regs : Regs} {mem : Bytes.Mem}
    (hitem : itemAt env.blocks t.state.position = some (.instr i))
    (hexec : i.exec env t.state.regs t.state.mem = some (regs, mem)) :
    t.step T bytecode env host = some { t with
      state := { t.state with position := t.state.position.next, regs := regs, mem := mem }
      freed := t.freed.filter (i.leavesVariable env t.state.regs) } := by
  rw [Tracked.step, LocalState.step_instr hitem hexec]
  dsimp only
  rw [hitem]

/-- **An object is handed over**: an execution that comes to an instruction which hands over an
object goes on to a call of a behaviour with that object. -/
theorem CodeOf.comes_to_call (hcode : CodeOf context T bytecode ins sp ps p q) (host : Host)
    (hact : Activates T env) (hframe : T.stack.InFrame o 8)
    (hdestination : ins.bc = .REFCPY → T.stack.InFrame sp 8)
    (ho : ins.passedObject T.stack.engine sp = some o) (hs : t.state.position = p) :
    ∃ u dst f args, t.Reaches T bytecode env host u ∧
      u.state.step env = .call dst (.runtime f) args ∧ f.isBehaviour = true ∧
      (args.map (·.eval env u.state.regs)).head? =
        some (Bytes.read t.state.mem (T.stack.byteAddress env.layout o) 8) ∧
      u.again = (releasedVariable T.stack bytecode env.layout ins.offset).toList.any
        (· ∈ t.freed) := by
  have hhands := hcode.handsOver
  rw [ho] at hhands
  obtain ⟨before, r, f, args, calls, rest, rfl, hf, -, -, hbefore⟩ := hhands
  obtain ⟨hmarker, r', hlaid⟩ := hcode.codeAt
  rw [← hact.blocks] at hmarker hlaid
  subst hs
  have hstart : t.step T bytecode env host = some _ := Tracked.step_marker hmarker
  -- the destination of a `REFCPY` is loaded before the object
  obtain ⟨v, hv, hmem, hagain, hlaid'⟩ : ∃ v, t.Reaches T bytecode env host v ∧
      v.state.mem = t.state.mem ∧
      v.again = (releasedVariable T.stack bytecode env.layout ins.offset).toList.any
        (· ∈ t.freed) ∧
      CodeAt .Implementation env.blocks v.state.position (.instr (.load r .pvoid
        (T.stack.slotAddress o)) :: (.instr (.call none (.runtime f) (⟨.reg r, .pvoid⟩ :: args)) ::
          (calls ++ rest))) r' := by
    rcases hbefore with rfl | ⟨hbc, k, rfl⟩
    · exact ⟨_, .single hstart, rfl, rfl, hlaid⟩
    · cases hlaid with
      | instr hitem hlaid =>
          have hload := exec_load_pointer .pvoid hact (hdestination hbc) t.state.regs t.state.mem k
          exact ⟨_, .tail (.single hstart) (Tracked.step_instr hitem hload), rfl, rfl, hlaid⟩
  cases hlaid' with
  | instr hitem hlaid' =>
      cases hlaid' with
      | instr hitem' _ =>
          have hload := exec_load_pointer .i8 hact hframe v.state.regs v.state.mem r
          refine ⟨_, none, f, ⟨.reg r, .pvoid⟩ :: args, .tail hv (Tracked.step_instr hitem hload), ?_, hf, ?_, hagain⟩
          · rw [LocalState.step, hitem']
          · rw [List.map_cons, List.head?_cons, Value.eval, Ty.truncate_ptr, Operand.eval_reg, ← hmem]
            dsimp only
            rw [Function.update_self]

/-! ### The law -/

/-- **An execution calls behaviours on live objects only iff its instructions get live objects**:
whenever it comes to a `FREE` that releases something, the variable is neither null nor a released
one that was not assigned since, and whenever it comes to a `REFCPY` or a `RefCpyV` that counts
references, the reference is not null. -/
theorem behaviours_lawful_iff (hwalked : Walked bytecode)
    (h : translateBytecode context bytecode = .ok T) (hact : Activates T env)
    (hframe : FramesObjects context T bytecode) (host : Host) {s : LocalState}
    (hs : s.position = (.entry, 0)) :
    (∀ t, (Tracked.entry s).Reaches T bytecode env host t → ¬ t.BreaksLaw env) ↔
      ∀ t, (Tracked.entry s).Reaches T bytecode env host t →
        t.HandsLiveObjects context T bytecode env := by
  constructor
  · intro hlaw t hreached ins sp ps p q hcode hposition o ho
    obtain ⟨hvariables, hdestination⟩ := hframe ins sp ps p q hcode
    obtain ⟨u, dst, f, args, hreaches, hcall, hf, hobject, hagain⟩ :=
      hcode.comes_to_call host hact (hvariables o ho) hdestination ho hposition
    have hkept := hlaw u (hreached.trans hreaches)
    refine ⟨fun hnull => ?_, fun hbc hfreed => ?_⟩
    · exact hkept ⟨dst, f, args, hcall, hf, .inl (hnull ▸ hobject)⟩
    · refine hkept ⟨dst, f, args, hcall, hf, .inr ?_⟩
      rw [hagain, hcode.releasedVariable_eq hwalked h, if_pos hbc, ho]
      simpa using hfreed
  · intro hlive t hreached
    exact (Tracked.reaches_lawful hwalked h hact hframe (Tracked.entry_lawful hwalked h hact hs) hlive
      hreached).not_breaksLaw

/-! ### A variable that is null -/

/-- **Steps inside a function** are steps of its execution. -/
theorem Tracked.reaches_of_steps (host : Host) {n : ℕ} {s : LocalState}
    (h : t.state.steps env n = some s) :
    ∃ t', t.Reaches T bytecode env host t' ∧ t'.state = s := by
  induction n generalizing t with
  | zero => exact ⟨t, .refl, Option.some.inj h⟩
  | succ n ih =>
      rw [LocalState.steps] at h
      cases hstep : t.state.step env with
      | next s' =>
          rw [hstep] at h
          have hnext : ∃ u, t.step T bytecode env host = some u ∧ u.state = s' := by
            rw [Tracked.step, hstep]
            dsimp only
            split <;> exact ⟨_, rfl, rfl⟩
          obtain ⟨u, hu, hstate⟩ := hnext
          obtain ⟨t', hreaches, ht'⟩ := ih (by rwa [hstate])
          exact ⟨t', .head hu hreaches, ht'⟩
      | call | ret | retVoid | undefined =>
          rw [hstep] at h
          exact absurd h (Option.some_ne_none _).symm

/-- An execution of a function that has four variables and no parameters comes to its first
instruction, with all variables null. -/
theorem Tracked.entry_reaches (host : Host) {T : Translation} (h : T.stack.totalSpace ≤ 2 ^ 32)
    (hblocks : prologue 32 <+: T.cfg.blocks .entry)
    (htotal : T.stack.totalSpace = 8) (hact : Activates T (T.env h []))
    (regs : Regs) (mem : Bytes.Mem) : ∃ t,
      (Tracked.entry ⟨(.entry, 0), regs, mem, none⟩).Reaches T bytecode (T.env h []) host t ∧
      t.state.position = (.entry, 6) ∧
      ∀ o : ℤ, 2 ≤ o ∧ o ≤ 8 →
        Bytes.read t.state.mem (T.stack.byteAddress (T.env h []).layout o) 8 = 0 := by
  have hsize : (T.env h []).layout.size .storage = 32 := by rw [hact.storage, htotal]; rfl
  obtain ⟨mem', hsteps⟩ := LocalState.steps_prologue (s := ⟨(.entry, 0), regs, mem, none⟩) hact hsize hblocks rfl
  obtain ⟨t, hreaches, hstate⟩ := Tracked.reaches_of_steps
    (t := .entry ⟨(.entry, 0), regs, mem, none⟩) host hsteps
  refine ⟨t, hreaches, by rw [hstate], fun o ho => ?_⟩
  rw [hstate]
  refine Bytes.read_fill_zero ?_
  rw [StackFrame.byteAddress, if_neg (by omega), htotal]
  omega

/-- What does not end a block leads to the next position. -/
theorem Tracked.step_position {u : Tracked} (h : t.step T bytecode env host = some u)
    (hitem : ∀ term, itemAt env.blocks t.state.position ≠ some (.term term)) :
    u.state.position = t.state.position.next := by
  cases hat : itemAt env.blocks t.state.position with
  | none =>
      rw [Tracked.step, LocalState.step, hat] at h
      exact absurd h.symm (Option.some_ne_none _)
  | some item =>
      cases item with
      | marker o =>
          obtain rfl := Option.some.inj ((Tracked.step_marker hat).symm.trans h)
          rfl
      | term term => exact absurd hat (hitem term)
      | instr i =>
          cases hexec : i.exec env t.state.regs t.state.mem with
          | some result =>
              obtain rfl := Option.some.inj ((Tracked.step_instr hat hexec).symm.trans h)
              rfl
          | none =>
              cases i with
              | call dst callee args =>
                  rw [Tracked.step, LocalState.step_call hat] at h
                  obtain rfl := Option.some.inj h
                  rfl
              | _ =>
                  rw [Tracked.step, LocalState.step, hat] at h
                  dsimp only at h
                  rw [hexec] at h
                  exact absurd h.symm (Option.some_ne_none _)

/-- What is no `FREE` releases nothing. -/
theorem Tracked.step_freed_nil {u : Tracked} (h : t.step T bytecode env host = some u)
    (hfreed : t.freed = [])
    (hmarker : ∀ o, itemAt env.blocks t.state.position = some (.marker o) →
      releasedVariable T.stack bytecode env.layout o = none) : u.freed = [] := by
  rw [Tracked.step] at h
  split at h
  · split at h
    · rename_i o hat
      obtain rfl := Option.some.inj h
      rw [hmarker o hat, hfreed]
      rfl
    · obtain rfl := Option.some.inj h
      rw [hfreed]
      rfl
    · obtain rfl := Option.some.inj h
      exact hfreed
  · obtain rfl := Option.some.inj h
    rw [hfreed]
    rfl
  · exact absurd h.symm (Option.some_ne_none _)

end Executions

/-- The first handle variable is released. -/
def freeFree : BytecodeInstruction := ⟨[0x20000, 0, 0], ⟨.FREE, 3, 0, by decide⟩, 0⟩

/-- A function that releases a variable. -/
def freeBytecode : List BytecodeInstruction := [
  freeFree,
  retAt 3]

/-- The instructions of the function that releases a variable. -/
theorem freeBytecode_framesObjects {T : Translation} (hengine : T.stack.engine = loopContext.engine)
    (htotal : T.stack.totalSpace = 8) : FramesObjects loopContext T freeBytecode := by
  rintro ins sp ps p q ⟨st, t, s', hat, -⟩
  have hins := hat.mem
  rw [freeBytecode, List.mem_cons, List.mem_singleton] at hins
  rw [hengine]
  rcases hins with rfl | rfl
  · refine ⟨fun o ho => ?_, fun hbc => Opcode.noConfusion hbc⟩
    obtain rfl : (2 : ℤ) = o := Option.some.inj ho
    exact StackFrame.inFrame_storage (by decide) (by omega) (by decide)
  · exact ⟨fun o ho => absurd ho (Option.some_ne_none _).symm, fun hbc => Opcode.noConfusion hbc⟩

theorem freeBytecode_walked : Walked freeBytecode := by
  simp [freeBytecode, freeFree, retAt, WalkedFrom, BytecodeInstruction.next]

theorem translateBytecode_free : ∃ T, translateBytecode loopContext freeBytecode = .ok T ∧
    (T.stack.parameters, (T.cfg.blocks .entry).take 7) = ([], [
      .instr (.alloca .valueRegister 8), .instr (.alloca .objectRegister 8),
      .instr (.alloca .storage 32),
      .instr (.store .i64 (.const 0) (.frame .valueRegister 0)),
      .instr (.store .pvoid (.const 0) (.frame .objectRegister 0)),
      .instr (.memset (.frame .storage 0) 0 32), .marker 0]) :=
  exists_ok_of_map (by decide +kernel)

/-- What is known about the translation of that function. -/
theorem exists_translation_free : ∃ T p q ps, translateBytecode loopContext freeBytecode = .ok T ∧
    T.stack.engine = loopContext.engine ∧ T.stack.totalSpace = 8 ∧ T.stack.parameters = [] ∧
    (T.cfg.blocks .entry).take 7 = [
      .instr (.alloca .valueRegister 8), .instr (.alloca .objectRegister 8),
      .instr (.alloca .storage 32),
      .instr (.store .i64 (.const 0) (.frame .valueRegister 0)),
      .instr (.store .pvoid (.const 0) (.frame .objectRegister 0)),
      .instr (.memset (.frame .storage 0) 0 32), .marker 0] ∧
    CodeOf loopContext T freeBytecode freeFree 4 ps p q := by
  obtain ⟨T, hT, hblocks⟩ := translateBytecode_free
  obtain ⟨hparameters, hblocks⟩ := Prod.mk.inj hblocks
  obtain ⟨ps, p, q, hcode⟩ := exists_codeOf_at [] _ freeBytecode_walked hT
  have hstack : T.stack.toFunctionContext = loopContext := hcode.stack_eq
  refine ⟨T, p, q, ps, hT, ?_, ?_, hparameters, hblocks, hcode⟩
  · rw [hstack]
  · rw [hstack]
    rfl

/-- **A handle that was never assigned is released**: handle variables start as null. -/
theorem behaviours_not_lawful : ∃ T env, Activates T env ∧
    translateBytecode loopContext freeBytecode = .ok T ∧
      ∃ t, (Tracked.entry ⟨(.entry, 0), fun _ => 0, fun _ => 0, none⟩).Reaches T freeBytecode env
        .idle t ∧ t.BreaksLaw env := by
  obtain ⟨T, p, q, ps, hT, hengine, htotal, hparameters, hblocks, hcode⟩ := exists_translation_free
  have hle : T.stack.totalSpace ≤ 2 ^ 32 := by omega
  have hact := T.activates_env hle [] (by rw [hparameters]; decide)
  have hprologue : prologue 32 <+: T.cfg.blocks .entry := by
    refine List.IsPrefix.trans ?_ (List.take_prefix 7 _)
    rw [hblocks]
    exact ⟨[.marker 0], rfl⟩
  obtain ⟨t, hreaches, hposition, hnull⟩ := Tracked.entry_reaches .idle hle hprologue htotal hact
    (fun _ => 0) (fun _ => 0)
  obtain ⟨bound, hmarked⟩ := translateBytecode_marked freeBytecode_walked hT
  have hmarker : itemAt T.cfg.blocks (.entry, 6) = some (.marker 0) := by
    have hsix := congrArg (·[6]?) hblocks
    rw [List.getElem?_take, if_pos (by decide)] at hsix
    exact hsix
  have hp : t.state.position = p := by
    rw [hposition]
    exact hmarked.unique _ _ 0 hmarker hcode.codeAt.1
  obtain ⟨hvariables, hdestination⟩ :=
    freeBytecode_framesObjects hengine htotal _ _ _ _ _ hcode
  have ho : freeFree.passedObject T.stack.engine 4 = some 2 := by
    rw [hengine]
    rfl
  obtain ⟨u, dst, f, args, hgoes, hcall, hf, hobject, -⟩ :=
    hcode.comes_to_call .idle hact (hvariables 2 ho) hdestination ho hp
  rw [hnull 2 (by decide)] at hobject
  exact ⟨T, _, hact, hT, u, hreaches.trans hgoes, dst, f, args, hcall, hf, .inl hobject⟩

/-! ### A variable that is assigned -/

/-- The address of an object is assigned to the first handle variable. -/
def assignSetV8 : BytecodeInstruction := ⟨[0x20000, 4096, 0], ⟨.SetV8, 3, 0, by decide⟩, 0⟩

/-- The variable is released. -/
def assignFree : BytecodeInstruction := { freeFree with offset := 3 }

/-- A function that assigns a variable and releases it. -/
def assignBytecode : List BytecodeInstruction := [assignSetV8, assignFree, retAt 6]

/-- Its code. -/
def assignBlock : List Item := prologue 32 ++ [
  .marker 0, .instr (.store .i64 (.const 4096) (.frame .storage 24)),
  .marker 3, .instr (.load 0 .pvoid (.frame .storage 24)),
  .instr (.call none (.runtime .free) [⟨.reg 0, .pvoid⟩]),
  .marker 6, .term (.ret (.const 0))]

theorem translateBytecode_assign : ∃ T, translateBytecode loopContext assignBytecode = .ok T ∧
    (T.stack.parameters, T.cfg.blocks .entry) = ([], assignBlock) :=
  exists_ok_of_map (by decide +kernel)

theorem assignBytecode_walked : Walked assignBytecode := by
  simp [assignBytecode, assignSetV8, assignFree, freeFree, retAt, WalkedFrom, BytecodeInstruction.next]

/-- An execution of the function goes straight through its block: nothing has been released when it
comes to the `FREE`, and the variable has been assigned. -/
theorem assign_reached {T : Translation} {host : Host} {t : Tracked} (h : T.stack.totalSpace ≤ 2 ^ 32)
    (htotal : T.stack.totalSpace = 8)
    (hparameters : ∀ entry ∈ T.stack.parameters, -64 < entry.1 ∧ entry.1 ≤ 0)
    (hblock : T.cfg.blocks .entry = assignBlock) (regs : Regs) (mem : Bytes.Mem)
    (hreaches : (Tracked.entry ⟨(.entry, 0), regs, mem, none⟩).Reaches T assignBytecode (T.env h [])
      host t) :
    ∃ k, t.state.position = (.entry, k) ∧ (k ≤ 8 → t.freed = []) ∧ (k = 8 →
      Bytes.read t.state.mem (T.stack.byteAddress (T.env h []).layout 2) 8 = 4096) := by
  induction hreaches with
  | refl => exact ⟨0, rfl, fun _ => rfl, fun h => absurd h (by decide)⟩
  | @tail t u hreached hstep ih =>
      obtain ⟨k, hk, hfreed, -⟩ := ih
      have hitem : itemAt (T.env h []).blocks t.state.position = assignBlock[k]? := by
        rw [hk, ← hblock]
        rfl
      have hnext : u.state.position = (.entry, k + 1) := by
        refine (Tracked.step_position hstep fun term hterm => ?_).trans (by rw [hk]; rfl)
        have hmem := List.mem_of_getElem? (hitem.symm.trans hterm)
        obtain rfl : term = .ret (.const 0) := by simpa [assignBlock, prologue] using hmem
        rw [Tracked.step, LocalState.step, hterm] at hstep
        exact absurd hstep.symm (Option.some_ne_none _)
      refine ⟨k + 1, hnext, fun hle => ?_, fun height => ?_⟩
      · refine Tracked.step_freed_nil hstep (hfreed (by omega)) fun o ho => ?_
        rw [hitem] at ho
        obtain rfl : o = 0 := by
          have htake : (assignBlock.take 8)[k]? = some (.marker o) := by
            rw [List.getElem?_take, if_pos (by omega), ho]
          simpa [assignBlock, prologue] using List.mem_of_getElem? htake
        rfl
      · obtain rfl : k = 7 := by omega
        have hact := T.activates_env h [] hparameters
        have hslot : T.stack.slotAddress 2 = .frame .storage 24 := by
          rw [StackFrame.slotAddress, if_neg (by decide), htotal]
          rfl
        have hframe : T.stack.InFrame 2 8 :=
          StackFrame.inFrame_storage (by decide) (by omega) (by decide)
        have hstore := hslot ▸ hframe.exec_store .i64 hact t.state.regs t.state.mem (.const 4096)
        obtain rfl := Option.some.inj ((Tracked.step_instr hitem hstore).symm.trans hstep)
        exact Bytes.read_write_same

/-- The variable that an instruction of the function hands over, which is that of the `FREE`. -/
theorem assign_passedObject {stack : StackFrame} (hengine : stack.engine = loopContext.engine)
    {ins : BytecodeInstruction} (hins : ins ∈ assignBytecode) {sp o : ℤ}
    (ho : ins.passedObject stack.engine sp = some o) : ins = assignFree ∧ o = 2 := by
  rw [assignBytecode, List.mem_cons, List.mem_cons, List.mem_singleton] at hins
  rw [hengine] at ho
  rcases hins with rfl | rfl | rfl
  · exact absurd ho (Option.some_ne_none _).symm
  · exact ⟨rfl, (Option.some.inj ho).symm⟩
  · exact absurd ho (Option.some_ne_none _).symm

/-- What is known about the translation of the function. -/
theorem exists_translation_assign : ∃ T ps p q, translateBytecode loopContext assignBytecode = .ok T ∧
    T.stack.engine = loopContext.engine ∧ T.stack.totalSpace = 8 ∧ T.stack.parameters = [] ∧
    T.cfg.blocks .entry = assignBlock ∧ CodeOf loopContext T assignBytecode assignFree 4 ps p q ∧
    ∀ sp ps p q, CodeOf loopContext T assignBytecode assignFree sp ps p q → p = (.entry, 8) := by
  obtain ⟨T, hT, hblocks⟩ := translateBytecode_assign
  obtain ⟨hparameters, hblock⟩ := Prod.mk.inj hblocks
  have hwalked : Walked ([assignSetV8] ++ assignFree :: [retAt 6]) := assignBytecode_walked
  obtain ⟨ps, p, q, hcode⟩ := exists_codeOf_at _ _ hwalked hT
  have hstack : T.stack.toFunctionContext = loopContext := hcode.stack_eq
  obtain ⟨bound, hmarked⟩ := translateBytecode_marked assignBytecode_walked hT
  have hmarker : itemAt T.cfg.blocks (.entry, 8) = some (.marker 3) := by
    rw [itemAt, hblock]
    rfl
  exact ⟨T, ps, p, q, hT, by rw [hstack], by rw [hstack]; rfl, hparameters, hblock, hcode,
    fun sp ps p q hcode' => hmarked.unique _ _ 3 hcode'.codeAt.1 hmarker⟩

/-- The instructions of the function hand over the variable. -/
theorem assign_framesObjects {T : Translation} (hengine : T.stack.engine = loopContext.engine)
    (htotal : T.stack.totalSpace = 8) : FramesObjects loopContext T assignBytecode := by
  rintro ins sp ps p q ⟨st, t, s', hat, -⟩
  refine ⟨fun o ho => ?_, fun hbc => ?_⟩
  · obtain ⟨-, rfl⟩ := assign_passedObject hengine hat.mem ho
    exact StackFrame.inFrame_storage (by decide) (by omega) (by decide)
  · have hother : ∀ ins ∈ assignBytecode, ins.bc ≠ .REFCPY := by decide
    exact absurd hbc (hother ins hat.mem)

/-- An execution of the function comes to the `FREE`. -/
theorem exists_assign_reached {T : Translation} (host : Host) (h : T.stack.totalSpace ≤ 2 ^ 32)
    (htotal : T.stack.totalSpace = 8) (hparameters : T.stack.parameters = [])
    (hblock : T.cfg.blocks .entry = assignBlock) (regs : Regs) (mem : Bytes.Mem) : ∃ t,
      (Tracked.entry ⟨(.entry, 0), regs, mem, none⟩).Reaches T assignBytecode (T.env h []) host t ∧
        t.state.position = (.entry, 8) := by
  have hact := T.activates_env h [] (by rw [hparameters]; exact fun _ h => absurd h List.not_mem_nil)
  have hprologue : prologue 32 <+: T.cfg.blocks .entry := by
    rw [hblock]
    exact ⟨_, rfl⟩
  obtain ⟨t, hreaches, hposition, -⟩ := @Tracked.entry_reaches assignBytecode host T h hprologue htotal
    hact regs mem
  have hitem : ∀ k, itemAt (T.env h []).blocks (.entry, k) = assignBlock[k]? := by
    intro k
    rw [← hblock]
    rfl
  have hframe : T.stack.InFrame 2 8 := StackFrame.inFrame_storage (by decide) (by omega) (by decide)
  have hslot : T.stack.slotAddress 2 = .frame .storage 24 := by
    rw [StackFrame.slotAddress, if_neg (by decide), htotal]
    rfl
  have hstore := hslot ▸ hframe.exec_store .i64 hact t.state.regs t.state.mem (.const 4096)
  have hsteps : ∃ s, t.state.steps (T.env h []) 2 = some s ∧ s.position = t.state.position.next.next :=
    ⟨_, (LocalState.steps_succ (LocalState.step_marker (hposition ▸ hitem 6))).trans
      (LocalState.steps_succ (LocalState.step_instr (hposition ▸ hitem 7) hstore)), rfl⟩
  obtain ⟨s, hsteps, hs⟩ := hsteps
  obtain ⟨u, hgoes, hstate⟩ := Tracked.reaches_of_steps host hsteps
  exact ⟨u, hreaches.trans hgoes, by rw [hstate, hs, hposition]; rfl⟩

/-- **A variable that was assigned is released**: the execution is lawful. -/
theorem behaviours_lawful_iff_assign : ∃ T env, Activates T env ∧
    translateBytecode loopContext assignBytecode = .ok T ∧
      (∀ t, (Tracked.entry ⟨(.entry, 0), fun _ => 0, fun _ => 0, none⟩).Reaches T assignBytecode env
        .idle t → ¬ t.BreaksLaw env) ∧
      ∃ t dst f args, (Tracked.entry ⟨(.entry, 0), fun _ => 0, fun _ => 0, none⟩).Reaches T
        assignBytecode env .idle t ∧ t.state.step env = .call dst (.runtime f) args ∧
          f.isBehaviour = true ∧ (args.map (·.eval env t.state.regs)).head? = some 4096 := by
  obtain ⟨T, ps, p, q, hT, hengine, htotal, hparameters, hblock, hcode, hp⟩ := exists_translation_assign
  have hle : T.stack.totalSpace ≤ 2 ^ 32 := by omega
  have hnone : ∀ entry ∈ T.stack.parameters, -64 < entry.1 ∧ entry.1 ≤ 0 := by
    rw [hparameters]
    exact fun _ h => absurd h List.not_mem_nil
  have hact := T.activates_env hle [] hnone
  have hframes := assign_framesObjects hengine htotal
  refine ⟨T, _, hact, hT,
    (behaviours_lawful_iff assignBytecode_walked hT hact hframes .idle rfl).mpr ?_, ?_⟩
  · intro t hreached ins sp ps' p' q' hcode' hposition o ho
    obtain ⟨st, u, s', hat, -⟩ := id hcode'
    obtain ⟨rfl, rfl⟩ := assign_passedObject hengine hat.mem ho
    obtain ⟨k, hk, hfreed, hassigned⟩ := assign_reached hle htotal hnone hblock _ _ hreached
    obtain rfl : k = 8 := by
      rw [hposition, hp _ _ _ _ hcode'] at hk
      exact (congrArg Prod.snd hk).symm
    rw [hassigned rfl, hfreed (by decide)]
    exact ⟨by decide, fun _ => List.not_mem_nil⟩
  · obtain ⟨t, hreached, hposition⟩ := exists_assign_reached .idle hle htotal hparameters hblock
      (fun _ => 0) (fun _ => 0)
    obtain ⟨k, hk, -, hassigned⟩ := assign_reached hle htotal hnone hblock _ _ hreached
    have hvariable := hassigned (congrArg Prod.snd (hk.symm.trans hposition))
    have ho : assignFree.passedObject T.stack.engine 4 = some 2 := by
      rw [hengine]
      rfl
    obtain ⟨hobject, hdestination⟩ := hframes _ _ _ _ _ hcode
    obtain ⟨u, dst, f, args, hgoes, hcall, hf, hhead, -⟩ := hcode.comes_to_call .idle hact
      (hobject 2 ho) hdestination ho (hposition.trans (hp _ _ _ _ hcode).symm)
    exact ⟨u, dst, f, args, hreached.trans hgoes, hcall, hf, hvariable ▸ hhead⟩

end Asllvm
