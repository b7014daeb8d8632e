import Asllvm.NullChecks
import Asllvm.Successors
import Asllvm.Remaining

/-!
# Return Values

How a value that is not returned on the stack gets from the registers of a callee to those of its
caller. AngelScript leaves a reference in the value register, whatever it refers to, and an object or
a handle in the object register. `RET` and the code of a script call go by
`IsObjectHandle() || IsObject()`, which a reference to an object answers too, and the code of a system
call by `IsObjectHandle()` alone.

* `Carries` — a returned value has arrived in the register of its type, and the other register is as
  it was.
* `RoundTrip` — a call of an implementation, up to the `RET` the callee comes to.

## Main results

* `carries_iff` — what is left by a store to one of the two registers.
* `CodeOf.ret_returns` — what `RET` does.
* `returnValues_iff` — when a value travels through the register the bytecode expects.
-/

open StateExcept Slots

namespace Asllvm

/-- A value of the type is returned in the value register: a reference, or what is neither an object
nor a handle. -/
def DataType.inValueRegister (type : DataType) : Bool :=
  type.isReference || !(type.isObjectHandle || type.isObject)

/-- **What AngelScript documents of a type returned through a register**: it is a primitive, or an
object or a handle and no primitive. -/
structure DataType.Returned (type : DataType) (ty : Ty) : Prop where
  llvm : toLlvmType type = .ok ty
  token : type.tokenType ≠ .ttVoid
  kind : (type.isObjectHandle || type.isObject || type.isPrimitive) = true
  object : (type.isObjectHandle || type.isObject) = true → type.isPrimitive = false

/-- Where the two registers of a caller lie, 8 bytes each: apart. -/
structure RegisterPair where
  value : ℕ
  object : ℕ
  apart : value + 8 ≤ object ∨ object + 8 ≤ value

/-- **A returned value has arrived**: it is in the register of its type, read at the width of the
type, and the other register is as it was. -/
def Carries (type : DataType) (ty : Ty) (registers : RegisterPair) (returned : Word)
    (before after : Bytes.Mem) : Prop :=
  if type.inValueRegister then
    ty.truncate (Bytes.read after registers.value ty.storeSize) = returned ∧
      Bytes.read after registers.object 8 = Bytes.read before registers.object 8
  else
    Bytes.read after registers.object 8 = returned ∧
      Bytes.read after registers.value 8 = Bytes.read before registers.value 8

section Registers

variable {type : DataType} {ty : Ty} {registers : RegisterPair} {returned stored v : Word}
  {before after mem : Bytes.Mem} {a n : ℕ}

/-- What is stored at a type is read back at it. -/
theorem read_write_truncate (ty : Ty) (mem : Bytes.Mem) (a : ℕ) (v : Word) :
    ty.truncate (Bytes.read (Bytes.write mem a ty.storeSize (ty.truncate v)) a ty.storeSize) =
      ty.truncate v := by
  have hbits : ty.bits ≤ 8 * ty.storeSize := by cases ty <;> simp [Ty.bits, Ty.storeSize]
  rw [Bytes.read_write_same, Ty.truncate, BitVec.setWidth_setWidth_of_le _ ty.bits_le,
    BitVec.setWidth_setWidth_of_le _ hbits, Ty.setWidth_truncate, Ty.truncate]

/-- An object or a handle is a pointer. -/
theorem DataType.Returned.eq_ptr (h : type.Returned ty)
    (hobject : (type.isObjectHandle || type.isObject) = true) : ∃ ty', ty = .ptr ty' := by
  obtain ⟨id, hid⟩ := toLlvmType_eq_ptr (h.object hobject) h.llvm
  exact ⟨_, hid⟩

/-- The store of a pointer to one of two registers leaves the other one alone. -/
theorem read_write_pointer (h : a + 8 ≤ n ∨ n + 8 ≤ a) :
    Bytes.read (Bytes.write mem a 8 v) a 8 = v ∧
      Bytes.read (Bytes.write mem a 8 v) n 8 = Bytes.read mem n 8 := by
  refine ⟨?_, Bytes.read_write_disjoint h.symm⟩
  rw [Bytes.read_write_same, BitVec.setWidth_eq, BitVec.setWidth_eq]

/-- A store to the register of the type carries the value. -/
theorem carries_of_eq (hty : type.inValueRegister = false → ∃ ty', ty = .ptr ty') :
    Carries type ty registers (ty.truncate stored) before (Bytes.write before
      (if type.inValueRegister then registers.value else registers.object) ty.storeSize
      (ty.truncate stored)) := by
  have hapart := registers.apart
  cases hin : type.inValueRegister with
  | true =>
      rw [Carries, hin, if_pos rfl, if_pos rfl]
      have hsize := ty.storeSize_le
      exact ⟨read_write_truncate ty before _ stored, Bytes.read_write_disjoint (by omega)⟩
  | false =>
      obtain ⟨ty', rfl⟩ := hty hin
      rw [Carries, hin, if_neg Bool.false_ne_true, if_neg Bool.false_ne_true]
      exact read_write_pointer hapart.symm

/-- A store to the other register carries the value iff both registers held what they should hold
already. -/
theorem carries_iff_of_ne (ty : Ty) :
    Carries type (.ptr ty) registers returned before (Bytes.write before
      (if type.inValueRegister then registers.object else registers.value) 8 stored) ↔
      if type.inValueRegister then Bytes.read before registers.value 8 = returned ∧
        Bytes.read before registers.object 8 = stored
      else Bytes.read before registers.object 8 = returned ∧
        Bytes.read before registers.value 8 = stored := by
  have hapart := registers.apart
  cases hin : type.inValueRegister with
  | true =>
      obtain ⟨hsame, hother⟩ := @read_write_pointer stored before registers.object registers.value
        hapart.symm
      rw [Carries, hin, if_pos rfl, if_pos rfl, if_pos rfl, Ty.truncate_ptr, Ty.storeSize, hsame,
        hother, eq_comm (a := stored)]
  | false =>
      obtain ⟨hsame, hother⟩ := @read_write_pointer stored before registers.value registers.object
        hapart
      rw [Carries, hin, if_neg Bool.false_ne_true, if_neg Bool.false_ne_true,
        if_neg Bool.false_ne_true, hsame, hother, eq_comm (a := stored)]

/-- **A store to one of the registers** carries a value iff it was the register of its type, or the
registers held what they should hold already. -/
theorem carries_iff (useObject : Bool)
    (hpointer : useObject = type.inValueRegister ∨ useObject = true → ∃ ty', ty = .ptr ty')
    (hstored : useObject = !type.inValueRegister → returned = ty.truncate stored) :
    Carries type ty registers returned before (Bytes.write before
      (if useObject then registers.object else registers.value) ty.storeSize (ty.truncate stored)) ↔
      useObject = !type.inValueRegister ∨
        if useObject then Bytes.read before registers.value 8 = returned ∧
          Bytes.read before registers.object 8 = stored
        else Bytes.read before registers.object 8 = returned ∧
          Bytes.read before registers.value 8 = stored := by
  by_cases hsame : useObject = type.inValueRegister
  · obtain ⟨ty', rfl⟩ := hpointer (.inl hsame)
    have hne : useObject ≠ !type.inValueRegister := by rw [hsame]; simp
    rw [or_iff_right hne, Ty.truncate_ptr, Ty.storeSize, hsame]
    exact carries_iff_of_ne ty'
  · have hne : useObject = !type.inValueRegister := Bool.eq_not.mpr hsame
    refine iff_of_true ?_ (.inl hne)
    rw [hstored hne]
    have hcarries := @carries_of_eq type ty registers stored before fun hin =>
      hpointer (.inr (by rw [hne, hin]; rfl))
    rw [hne]
    cases hin : type.inValueRegister <;> simpa [hin] using hcarries

/-- A memory that agrees on the registers carries the same. -/
theorem carries_congr {after' : Bytes.Mem}
    (hobject : Bytes.read after registers.object 8 = Bytes.read after' registers.object 8)
    (hvalue : ∀ n ≤ 8, Bytes.read after registers.value n = Bytes.read after' registers.value n) :
    Carries type ty registers returned before after ↔
      Carries type ty registers returned before after' := by
  rw [Carries, Carries, hobject, hvalue ty.storeSize ty.storeSize_le, hvalue 8 le_rfl]

end Registers

/-! ### The code of `RET` -/

/-- The address of an alloca of an activation. -/
abbrev Env.addressOf (env : Env) (slot : AllocaId) : ℕ := env.layout.address slot

/-- The code goes through the object register. -/
def DataType.usesObjectRegister (type : DataType) : Bool := type.isObjectHandle || type.isObject

/-- What the registers of a callee hold, of a type: what the code of `RET` takes. -/
def takenValue (type : DataType) (ty : Ty) (env : Env) (mem : Bytes.Mem) : Word :=
  if type.usesObjectRegister then Bytes.read mem (env.addressOf .objectRegister) 8
  else ty.truncate (Bytes.read mem (env.addressOf .valueRegister) ty.storeSize)

/-- The value a callee returns, as AngelScript leaves it. -/
def returnedValue (type : DataType) (ty : Ty) (env : Env) (mem : Bytes.Mem) : Word :=
  if type.inValueRegister then ty.truncate (Bytes.read mem (env.addressOf .valueRegister) ty.storeSize)
  else Bytes.read mem (env.addressOf .objectRegister) 8

section Ret

variable {context : FunctionContext} {bytecode : List BytecodeInstruction}
  {ins : BytecodeInstruction} {T : Translation} {sp : ℤ} {ps : List Piece} {p q : Position}
  {env : Env} {type : DataType} {ty : Ty} {stack : StackFrame} {e e' : EmitState}

/-- The load of the register that the code of `RET` returns. -/
def takeValue (type : DataType) (ty : Ty) (r : ℕ) : Instr :=
  if type.usesObjectRegister then .load r .pvoid (.frame .objectRegister 0)
  else .load r ty (.frame .valueRegister 0)

/-- The code of `RET`: a register is loaded, and stored through the first argument. -/
theorem translateRet_code {t : Terminator} (hreturned : stack.scriptFunction.returnType.Returned ty)
    (hstack : stack.scriptFunction.doesReturnOnStack = false)
    (h : Runs (translateRet stack ins) e t e') : e'.out = e.out ++ [
      .instr (takeValue stack.scriptFunction.returnType ty e.nextReg),
      .instr (.store ty (.reg e.nextReg) (.arg 0))] := by
  have hcond : stack.scriptFunction.returnType.tokenType ≠ .ttVoid ∧
      (!stack.scriptFunction.doesReturnOnStack) = true := ⟨hreturned.token, by rw [hstack]; rfl⟩
  rw [translateRet] at h
  dsimp only at h
  rw [if_pos hcond, runs_bind] at h
  obtain ⟨ty', s, hlift, h⟩ := h
  obtain ⟨hty, rfl⟩ := runs_lift.mp hlift
  obtain rfl := Except.ok.inj (hreturned.llvm.symm.trans hty)
  rw [takeValue]
  split at h
  · rename_i hobject
    rw [DataType.usesObjectRegister, if_pos hobject]
    simp only [runs_bind, runs_createLoad, runs_createStore, runs_modify, runs_pure] at h
    obtain ⟨_, _, ⟨rfl, rfl⟩, _, _, rfl, _, _, rfl, -, rfl⟩ := h
    simp
  · rename_i hobject
    rw [DataType.usesObjectRegister, if_neg hobject]
    simp only [runs_bind, runs_loadValueRegisterValue, runs_createStore, runs_modify, runs_pure] at h
    obtain ⟨_, _, ⟨rfl, rfl⟩, _, _, rfl, _, _, rfl, -, rfl⟩ := h
    simp

/-- The register that `RET` returns, loaded. -/
theorem exec_takeValue (type : DataType) (ty : Ty) (hact : Activates T env) (regs : Regs)
    (mem : Bytes.Mem) (r : ℕ) : (takeValue type ty r).exec env regs mem =
      some (Function.update regs r (takenValue type ty env mem), mem) := by
  rw [takeValue, takenValue]
  split
  · rw [exec_load_alloca .pvoid (by rw [hact.objectRegister]; exact le_rfl), Ty.truncate_ptr]
    rfl
  · rw [exec_load_alloca ty (by rw [hact.valueRegister]; exact ty.storeSize_le)]

/-- **What `RET` does**: the value of a register is stored through the first argument, and the
activation returns `Ok`. -/
theorem CodeOf.ret_returns (h : CodeOf context T bytecode ins sp ps p q) (hbc : ins.bc = .RET)
    (hact : Activates T env) (hreturned : T.stack.scriptFunction.returnType.Returned ty)
    (hstack : T.stack.scriptFunction.doesReturnOnStack = false) (host : Host)
    (calls : List Request) {s : LocalState} (hs : s.position = p) :
    Returns env host (fun _ => True) calls s VmState.Ok.word calls
      (Bytes.write s.mem (env.args.getD 0 0).toNat ty.storeSize
        (ty.truncate (takenValue T.stack.scriptFunction.returnType ty env s.mem))) := by
  have hreached := h.reached host (fun _ => True) calls hact.blocks hs fun _ _ => trivial
  obtain ⟨st, t, e', -, -, rfl, hruns, hterm, -⟩ := h
  obtain ⟨t', hret, rfl⟩ : ∃ t', Runs (translateRet T.stack ins) { st.emit with out := [] } t' e' ∧
      t = some t' := by
    simp only [translateOpcode, hbc, runs_bind, runs_pure] at hruns
    obtain ⟨t', _, hret, rfl, rfl⟩ := hruns
    exact ⟨t', hret, rfl⟩
  obtain rfl := translateRet_eq hret
  have hitem := hterm _ rfl
  rw [translateRet_code hreturned hstack hret, List.nil_append,
    runCode_step (exec_takeValue _ ty hact s.regs s.mem _)] at hreached
  let taken := takenValue T.stack.scriptFunction.returnType ty env s.mem
  have hstore : (Instr.store ty (.reg st.emit.nextReg) (.arg 0)).exec env
      (Function.update s.regs st.emit.nextReg taken) s.mem =
        some (Function.update s.regs st.emit.nextReg taken,
          Bytes.write s.mem (env.args.getD 0 0).toNat ty.storeSize (ty.truncate taken)) := by
    have heval : (Operand.reg st.emit.nextReg).eval env
        (Function.update s.regs st.emit.nextReg taken) = taken := Function.update_self _ _ _
    have haccess : env.accessible (.arg 0) ty.storeSize = true := rfl
    rw [Instr.exec, if_pos haccess, heval]
    rfl
  have hgoes : runCode env host [.instr (.store ty (.reg st.emit.nextReg) (.arg 0))]
      ⟨Function.update s.regs st.emit.nextReg taken, s.mem, calls⟩ = .goes ⟨_, _, calls⟩ :=
    runCode_step hstore
  rw [hgoes] at hreached
  refine ⟨_, hreached, ?_, rfl⟩
  rw [LocalState.step, Progress.within, hact.blocks, hitem]
  rfl

/-- An activation returns in one way at most. -/
theorem Returns.det {host : Host} {Q R : Instr → Prop} {calls calls' calls'' : List Request}
    {s : LocalState} {state state' : Word} {mem mem' : Bytes.Mem}
    (h : Returns env host Q calls s state calls' mem)
    (h' : Returns env host R calls s state' calls'' mem') : state = state' ∧ mem = mem' := by
  obtain ⟨s₁, hreaches, hret, rfl⟩ := h
  obtain ⟨s₂, hreaches', hret', rfl⟩ := h'
  obtain ⟨-, rfl⟩ := hreaches.halts_unique (halts_of_ret hret) hreaches' (halts_of_ret hret')
  exact ⟨Outcome.ret.inj (hret.symm.trans hret'), rfl⟩

end Ret

/-! ### The code of a script call -/

/-- The register of the caller that a script call passes a pointer to. -/
def returnRegister (entry : Option VmEntryCallContext) (type : DataType) : Value :=
  if type.usesObjectRegister then (entry.map (·.objectRegister)).getD objectRegister
  else (entry.map (·.valueRegister)).getD valueRegister

/-- The end of the code of a script call: the call, and the check of the state it returns. -/
def scriptCallCode (r : ℕ) (target : Operand) (args : List Value) : List Piece := [
  .instr (.call (some r) (.script target) args),
  .instr (.icmp (r + 1) .ne .i8 (.reg r) VmState.Ok.const.op),
  .check (.reg (r + 1)) (.reg r)]

section ScriptCall

variable {stack : StackFrame} {callee : ScriptFunction} {e e' : EmitState} {ty : Ty}
  {entry : Option VmEntryCallContext}

/-- The first parameter of an implementation that returns through a register is a pointer. -/
theorem getScriptFunctionType_returned {engine : Engine} {types : List Ty}
    (hthrough : callee.ReturnsThroughPointer) (hreturned : callee.returnType.Returned ty)
    (h : getScriptFunctionType engine callee = .ok types) : types[0]? = some (.ptr ty) := by
  rw [getScriptFunctionType] at h
  obtain ⟨returned, hreturn, h⟩ := except_bind_ok.mp h
  obtain ⟨object, -, h⟩ := except_bind_ok.mp h
  obtain ⟨parameters, -, h⟩ := except_bind_ok.mp h
  obtain rfl := Except.ok.inj h
  rw [returnedTypes, if_pos hthrough.1, hreturned.llvm, hthrough.2] at hreturn
  obtain rfl := Except.ok.inj hreturn
  rfl

/-- The first argument is the register, as a pointer. -/
theorem returnArguments_register {types : List Ty} {vs : List Value} {m : ℕ}
    (hthrough : callee.ReturnsThroughPointer) (hreturned : callee.returnType.Returned ty)
    (htypes : types[0]? = some (.ptr ty))
    (h : Runs (returnArguments stack entry callee types) e (vs, m) e') :
    vs = [pointerCast (returnRegister entry callee.returnType) (.ptr ty)] := by
  obtain ⟨hvoid, hstack⟩ := hthrough
  rw [returnArguments, if_pos hvoid, if_neg (by rw [hstack]; exact Bool.false_ne_true), runs_bind]
    at h
  obtain ⟨ty', _, hfirst, h⟩ := h
  obtain ⟨hty, rfl⟩ := runs_elementAt.mp hfirst
  obtain rfl := Option.some.inj (htypes.symm.trans hty)
  rw [returnRegister]
  split at h
  · rename_i hobject
    rw [DataType.usesObjectRegister, if_pos hobject]
    exact (Prod.mk.inj (runs_pure.mp h).1).1
  · rename_i hobject
    have hprimitive : callee.returnType.isPrimitive = true := by
      have hkind := hreturned.kind
      rw [Bool.not_eq_true] at hobject
      rwa [hobject, Bool.false_or] at hkind
    rw [DataType.usesObjectRegister, if_neg hobject]
    rw [if_pos hprimitive] at h
    exact (Prod.mk.inj (runs_pure.mp h).1).1

/-- **The end of a script call**: the register of the caller is passed first. -/
theorem emitScriptCall_ends {n : ℕ} (hthrough : callee.ReturnsThroughPointer)
    (hreturned : callee.returnType.Returned ty) (h : Runs (emitScriptCall stack callee entry) e n e') :
    ∃ pre r target args, e'.out = e.out ++ (pre ++ scriptCallCode r target
      (pointerCast (returnRegister entry callee.returnType) (.ptr ty) :: args)) ∧
      ∀ k ∈ definedRegisters pre, e.nextReg ≤ k := by
  simp only [emitScriptCall, runs_bind, runs_asllvmAssert, runs_lift, runs_createCall_i8,
    runs_emitCheckVmState, runs_pure] at h
  obtain ⟨_, s₀, ⟨-, hs₀⟩, types, s₀', ⟨htypes, hs₀'⟩, target, s₁, htarget, ⟨returned, n₁⟩, s₂,
    hreturn, ⟨object, n₂⟩, s₃, hobject, ⟨parameters, n₃⟩, s₄, hparameters, _, _, ⟨rfl, rfl⟩,
    _, _, rfl, -, rfl⟩ := h
  rw [hs₀', hs₀] at htarget
  obtain rfl := returnArguments_register hthrough hreturned
    (getScriptFunctionType_returned hthrough hreturned htypes) hreturn
  obtain ⟨ps₁, hps₁⟩ := emitted_of_runs htarget
  obtain ⟨ps₂, hps₂⟩ := emitted_of_runs hreturn
  obtain ⟨ps₃, hps₃⟩ := emitted_of_runs hobject
  obtain ⟨ps₄, hps₄⟩ := emitted_of_runs hparameters
  have hall := ((hps₁.trans hps₂).trans hps₃).trans hps₄
  refine ⟨ps₁ ++ ps₂ ++ ps₃ ++ ps₄, s₄.nextReg, target.op, object ++ parameters, ?_, fun k hk => ?_⟩
  · simp [hall.out, scriptCallCode]
  · rw [hall.registers] at hk
    exact (List.mem_range'_1.mp hk).1

/-- A call, as the host answers it. -/
theorem Progress.call_eq {host : Host} {p : Progress} {callee : Callee} {words : List Word} {v : Word}
    {mem : Bytes.Mem}
    (hanswer : host (⟨callee, words, p.world.mem⟩ :: p.world.calls) = (v, mem)) (r : ℕ) :
    p.call host (some r) callee words = ⟨Function.update p.regs r v, mem,
      ⟨callee, words, p.world.mem⟩ :: p.world.calls⟩ := by
  simp only [Progress.call, World.call, hanswer]

/-- The state `Ok`, tested. -/
theorem exec_testOk (env : Env) (regs : Regs) (mem : Bytes.Mem) (r : ℕ) :
    (Instr.icmp (r + 1) .ne .i8 (.reg r) VmState.Ok.const.op).exec env
      (Function.update regs r VmState.Ok.word) mem =
        some (Function.update (Function.update regs r VmState.Ok.word) (r + 1) 0, mem) := by
  rw [Instr.exec, Operand.eval_reg, Function.update_self]
  rfl

/-- **The end of a script call, run**: if the callee returns `Ok`, the caller goes on in the memory
it has left. -/
theorem scriptCallCode_goes (env : Env) (host : Host) (p : Progress) (r : ℕ) (target : Operand)
    (args : List Value) {mem : Bytes.Mem}
    (hanswer : host (⟨.script target, args.map (·.eval env p.regs), p.world.mem⟩ :: p.world.calls) =
      (VmState.Ok.word, mem)) : ∃ regs, runCode env host (scriptCallCode r target args) p =
        .goes ⟨regs, mem, ⟨.script target, args.map (·.eval env p.regs), p.world.mem⟩ ::
          p.world.calls⟩ := by
  rw [scriptCallCode, runCode, Progress.call_eq hanswer, runCode_step (exec_testOk env _ mem r),
    runCode]
  simp only [Operand.eval_reg, Function.update_self]
  exact ⟨_, rfl⟩

end ScriptCall

/-! ### There and back -/

/-- **A callee answers a call**: it starts with the arguments and the memory of the call, comes to the
state `s'`, and returns `Ok` from there, in a memory that is also the host's answer. -/
structure CalleeReturns (host : Host) (w : World) (target : Operand) (args : List Word) (env' : Env)
    (host' : Host) (s' : LocalState) (mem' : Bytes.Mem) : Prop where
  arguments : env'.args = args
  run : ∃ regs calls' calls'', Reaches env' host' (fun _ => True) [] (.enter regs w.mem) calls' s' ∧
    Returns env' host' (fun _ => True) calls' s' VmState.Ok.word calls'' mem'
  answer : host (⟨.script target, args, w.mem⟩ :: w.calls) = (VmState.Ok.word, mem')

/-- **A call of an implementation**: the caller runs the code in front of the call, and the callee
answers it. -/
def RoundTrip (env : Env) (host : Host) (ps : List Piece) (calls : List Request) (s : LocalState)
    (env' : Env) (host' : Host) (s' : LocalState) (mem' : Bytes.Mem) : Prop :=
  ∃ pre r target args p, ps = pre ++ scriptCallCode r target args ∧
    runCode env host pre ⟨s.regs, s.mem, calls⟩ = .goes p ∧
    CalleeReturns host p.world target (args.map (·.eval env p.regs)) env' host' s' mem'

/-- The registers of an activation. -/
def Activates.registers {T : Translation} {env : Env} (h : Activates T env) : RegisterPair where
  value := env.addressOf .valueRegister
  object := env.addressOf .objectRegister
  apart := by
    have hdisjoint := env.layout.disjoint .valueRegister .objectRegister (by decide)
    rwa [h.valueRegister, h.objectRegister] at hdisjoint

/-- When a value that a function returns by `RET` arrives: its type is no reference to an object or a
handle, or the registers of the caller held what those of the callee hold. -/
def ReturnsRightly (type : DataType) (ty : Ty) (registers : RegisterPair) (env : Env)
    (mem : Bytes.Mem) : Prop :=
  ¬ (type.isReference = true ∧ (type.isObjectHandle = true ∨ type.isObject = true)) ∨
    Bytes.read mem registers.value 8 = returnedValue type ty env mem ∧
      Bytes.read mem registers.object 8 = takenValue type ty env mem

section RoundTrip

variable {context context' : FunctionContext} {bytecode bytecode' : List BytecodeInstruction}
  {call ret : BytecodeInstruction} {T T' : Translation} {sp sp' : ℤ} {ps ps' : List Piece}
  {p q p' q' : Position} {env env' : Env} {host host' : Host} {calls : List Request}
  {s s' : LocalState} {mem' : Bytes.Mem} {function : ScriptFunction} {type : DataType} {ty : Ty}

/-- The code of `RET` takes another register than the one of the type iff the type is a reference to an
object or a handle. -/
theorem DataType.usesObjectRegister_eq (type : DataType) :
    type.usesObjectRegister = (!type.inValueRegister) ↔
      ¬ (type.isReference = true ∧ (type.isObjectHandle = true ∨ type.isObject = true)) := by
  rw [usesObjectRegister, inValueRegister]
  cases type.isReference <;> cases type.isObjectHandle <;> cases type.isObject <;> decide

/-- **What `RET` leaves**, for a caller that passed one of its registers. -/
theorem carries_ret_iff (hreturned : type.Returned ty) (registers : RegisterPair) (env : Env)
    (mem : Bytes.Mem) :
    Carries type ty registers (returnedValue type ty env mem) mem (Bytes.write mem
      (if type.usesObjectRegister then registers.object else registers.value) ty.storeSize
      (ty.truncate (takenValue type ty env mem))) ↔ ReturnsRightly type ty registers env mem := by
  have hvalue : type.usesObjectRegister = type.inValueRegister → type.usesObjectRegister = true := by
    rw [DataType.inValueRegister, ← DataType.usesObjectRegister]
    cases type.usesObjectRegister <;> simp
  have hpointer : type.usesObjectRegister = type.inValueRegister ∨ type.usesObjectRegister = true →
      ∃ ty', ty = .ptr ty' := fun h => hreturned.eq_ptr (h.elim hvalue id)
  have hstored : type.usesObjectRegister = !type.inValueRegister →
      returnedValue type ty env mem = ty.truncate (takenValue type ty env mem) := by
    intro heq
    rw [returnedValue, takenValue, heq]
    cases hin : type.inValueRegister with
    | true => exact (ty.truncate_truncate _).symm
    | false =>
        obtain ⟨ty', rfl⟩ := hpointer (.inr (by rw [heq, hin]; rfl))
        exact (Ty.truncate_ptr ty' _).symm
  rw [carries_iff _ hpointer hstored, ReturnsRightly, ← type.usesObjectRegister_eq]
  refine or_congr_right' fun hne => ?_
  rw [if_pos (hvalue (Bool.eq_not.not_left.mp hne))]

/-- The word of a register that a call passes. -/
theorem returnRegister_eval {regs : Regs} (type : DataType) (ty : Ty) (hact : Activates T env) :
    ((pointerCast (returnRegister none type) (.ptr ty)).eval env regs).toNat =
      if type.usesObjectRegister then hact.registers.object else hact.registers.value := by
  have haddress : ∀ slot, ((Operand.frame slot 0).eval env regs).toNat = env.addressOf slot :=
    fun slot => Operand.eval_frame (Int.le_refl 0) (Int.natCast_nonneg _)
  rw [returnRegister]
  split
  · exact (congrArg BitVec.toNat (Ty.truncate_ptr ty _)).trans (haddress .objectRegister)
  · exact (congrArg BitVec.toNat (Ty.truncate_ptr ty _)).trans (haddress .valueRegister)

/-- **From a script call to `RET` and back**: the caller goes on behind the call, and the value has
arrived iff `ReturnsRightly`. -/
theorem CodeOf.roundTrip (hcall : CodeOf context T bytecode call sp ps p q)
    (hbc : call.bc = .CALL ∨ call.bc = .CALLINTF)
    (hfunction : T.stack.engine.getFunctionById call.argInt = some function)
    (hthrough : function.ReturnsThroughPointer) (hreturned : function.returnType.Returned ty)
    (hret : CodeOf context' T' bytecode' ret sp' ps' p' q') (hretbc : ret.bc = .RET)
    (htype : T'.stack.scriptFunction.returnType = function.returnType)
    (hstack : T'.stack.scriptFunction.doesReturnOnStack = false) (hact : Activates T env)
    (hact' : Activates T' env') (hs : s.position = p) (hs' : s'.position = p')
    (htrip : RoundTrip env host ps calls s env' host' s' mem') :
    (∃ regs calls', Reaches env host (fun _ => True) calls s calls'
      ⟨q, regs, mem', some call.offset⟩) ∧
    (Carries function.returnType ty hact.registers (returnedValue function.returnType ty env' s'.mem)
      s'.mem mem' ↔ ReturnsRightly function.returnType ty hact.registers env' s'.mem) := by
  have hreached := hcall.reached host (fun _ => True) calls hact.blocks hs fun _ _ => trivial
  have hordinary : call.bc.endsBlock = false := by rcases hbc with hbc | hbc <;> rw [hbc] <;> rfl
  obtain ⟨e, e', -, hout, rfl, hruns⟩ := hcall.ordinary hordinary
  obtain ⟨n, hemit⟩ : ∃ n, Runs (emitScriptCall T.stack function) e n e' := by
    rcases hbc with hbc | hbc <;>
      · simp only [translateOrdinary, hbc, hfunction, runs_bind, runs_dereference, runs_pure] at hruns
        obtain ⟨_, _, ⟨hcallee, rfl⟩, n, _, hcall, -, rfl⟩ := hruns
        obtain rfl := Option.some.inj hcallee
        exact ⟨n, hcall⟩
  obtain ⟨pre, r, target, args, hcode, -⟩ := emitScriptCall_ends hthrough hreturned hemit
  obtain ⟨pre', r', target', args', p, hcode', hpre, hargs, ⟨regs, calls', calls'', -, hreturns⟩,
    hanswer⟩ := htrip
  rw [hout, List.nil_append] at hcode
  obtain ⟨rfl, hend⟩ := List.append_inj' (hcode'.symm.trans hcode) rfl
  obtain ⟨⟨rfl, rfl, rfl⟩, -⟩ : (r' = r ∧ target' = target ∧ args' = pointerCast (returnRegister none
      function.returnType) (.ptr ty) :: args) ∧ r' = r := by
    simpa [scriptCallCode] using hend
  obtain ⟨regs', hgoes⟩ := scriptCallCode_goes env host p r' target' _ hanswer
  rw [hcode, runCode_append, hpre] at hreached
  dsimp only at hreached
  rw [hgoes] at hreached
  refine ⟨⟨_, _, hreached⟩, ?_⟩
  rw [← htype] at hreturned
  have hleft := hret.ret_returns hretbc hact' hreturned hstack host' calls' hs'
  obtain ⟨-, rfl⟩ := hreturns.det hleft
  have hfirst : (env'.args.getD 0 0).toNat = if function.returnType.usesObjectRegister then
      hact.registers.object else hact.registers.value := by
    rw [hargs]
    exact returnRegister_eval function.returnType ty hact
  rw [hfirst, htype]
  exact carries_ret_iff (htype ▸ hreturned) hact.registers env' s'.mem

end RoundTrip

/-! ### The code of a system call -/

/-- The end of the code of a system call: the call, the check of the context, and the store of the
result to one of the two registers. -/
def nativeCallCode (r : ℕ) (target : Operand) (args : List Value) (type : DataType) (ty : Ty) :
    List Piece :=
  .instr (.call (some r) (.system target) args) :: (contextCheck (r + 1) ++ [
    .instr (.store ty (.reg r)
      (.frame (if type.isObjectHandle then .objectRegister else .valueRegister) 0))])

section SystemCall

variable {stack : StackFrame} {function : ScriptFunction} {e e' : EmitState} {type : DataType}
  {ty : Ty}

/-- A returned type is not `void`. -/
theorem DataType.Returned.ne_void (h : type.Returned ty) : ty ≠ .void := by
  rintro rfl
  by_cases hprimitive : type.isPrimitive = true
  · have hty := h.llvm
    rw [toLlvmType, if_pos hprimitive] at hty
    obtain ⟨base, hbase, hty⟩ := except_bind_ok.mp hty
    split at hty
    · exact Ty.noConfusion (Except.ok.inj hty)
    · obtain rfl := Except.ok.inj hty
      have htoken := h.token
      cases htok : type.tokenType <;> simp_all [TokenType.toLlvmType]
  · obtain ⟨id, hid⟩ := toLlvmType_eq_ptr (by simpa using hprimitive) h.llvm
    exact Ty.noConfusion hid

/-- **The end of a system call** that returns through a register. -/
theorem emitSystemCall_ends (hstack : function.doesReturnOnStack = false)
    (hmem : function.sysFuncIntf.hostReturnInMemory = false)
    (hreturned : function.returnType.Returned ty) (h : Runs (emitSystemCall stack function) e () e') :
    ∃ pre r target args, e'.out = e.out ++
      (pre ++ nativeCallCode r target args function.returnType ty) := by
  simp only [emitSystemCall, runs_bind, runs_lift] at h
  obtain ⟨⟨returnType, types⟩, s₀, ⟨htypes, hs₀⟩, returnPointer, s₁, hreturn, st, s₂, hloop, h⟩ := h
  have htype := getSystemFunctionType_returnType hmem htypes
  obtain rfl := Except.ok.inj (htype.symm.trans hreturned.llvm)
  obtain ⟨rfl, rfl⟩ : returnPointer = none ∧ s₁ = s₀ := by
    rw [popReturnPointer, hstack] at hreturn
    exact runs_pure.mp hreturn
  obtain ⟨ps₁, hps₁⟩ := emitted_of_runs hloop
  rw [finishSystemCall] at h
  obtain ⟨_, s₃, hcheck, h⟩ := runs_bind.mp h
  obtain ⟨callee, s₄, hcallee, h⟩ := runs_bind.mp h
  obtain ⟨result, s₅, hcall, h⟩ := runs_bind.mp h
  obtain ⟨_, s₆, hstore, hhack⟩ := runs_bind.mp h
  obtain ⟨ps₂, hps₂⟩ := emitted_of_runs hcheck
  obtain ⟨ps₃, hps₃⟩ := emitted_of_runs hcallee
  simp only [callSystemFunction, runs_bind, runs_createCall_void, runs_emitCheckContextState,
    runs_pure, runs_createCall hreturned.ne_void] at hcall
  obtain ⟨_, _, ⟨-, rfl⟩, vs, s₇, hargs, _, _, ⟨rfl, rfl⟩, _, _, rfl, rfl, rfl⟩ := hcall
  obtain rfl := mapM_dereference_state hargs
  rw [storeSystemResult, if_pos hreturned.ne_void] at hstore
  refine ⟨ps₁ ++ (ps₂ ++ (ps₃ ++ [.instr (.call none (.runtime .prepareSystemCall) [callee])])),
    s₄.nextReg, callee.op, vs, ?_⟩
  rw [stack.runs_uglyHack.mp hhack, nativeCallCode]
  split at hstore
  · rename_i hhandle
    rw [runs_createStore.mp hstore, if_pos hhandle]
    simp [hps₃.out, hps₂.out, hps₁.out, hs₀, contextCheck]
  · rename_i hhandle
    rw [runs_storeValueRegisterValue.mp hstore, if_neg hhandle]
    simp [hps₃.out, hps₂.out, hps₁.out, hs₀, contextCheck]

/-- **The end of a system call, run**: if the context reports nothing, the result is stored. -/
theorem nativeCallCode_goes {T : Translation} {env : Env} (type : DataType) (ty : Ty)
    (hact : Activates T env) (host : Host) (p : Progress) (r : ℕ) (target : Operand)
    (args : List Value) {v : Word} {mem before : Bytes.Mem}
    (hanswer : host (⟨.system target, args.map (·.eval env p.regs), p.world.mem⟩ :: p.world.calls) =
      (v, mem))
    (hstatus : host (⟨.runtime .checkExecutionStatus, [], mem⟩ :: ⟨.system target,
      args.map (·.eval env p.regs), p.world.mem⟩ :: p.world.calls) = (0, before)) :
    ∃ regs calls, runCode env host (nativeCallCode r target args type ty) p = .goes ⟨regs,
      Bytes.write before (if type.isObjectHandle then hact.registers.object
        else hact.registers.value) ty.storeSize (ty.truncate v), calls⟩ := by
  let regs := Function.update p.regs r v
  have hr : Function.update regs (r + 1) (0 : Word) r = v :=
    (Function.update_of_ne (by omega) _ _).trans (Function.update_self _ _ _)
  have hcompare : (Instr.icmp (r + 1 + 1) .ne .vmState (.reg (r + 1)) (.const 0)).exec env
      (Function.update regs (r + 1) 0) before =
        some (Function.update (Function.update regs (r + 1) 0) (r + 1 + 1) 0, before) := by
    rw [Instr.exec, Operand.eval_reg, Function.update_self]
    rfl
  have hvalue : (Operand.reg r).eval env (Function.update (Function.update regs (r + 1) 0)
      (r + 1 + 1) 0) = v := (Function.update_of_ne (by omega) _ _).trans hr
  have hstore : (Instr.store ty (.reg r) (.frame (if type.isObjectHandle then .objectRegister
      else .valueRegister) 0)).exec env (Function.update (Function.update regs (r + 1) 0)
        (r + 1 + 1) 0) before = some (Function.update (Function.update regs (r + 1) 0) (r + 1 + 1) 0,
          Bytes.write before (if type.isObjectHandle then hact.registers.object
            else hact.registers.value) ty.storeSize (ty.truncate v)) := by
    split
    · rw [exec_store_alloca ty (by rw [hact.objectRegister]; exact ty.storeSize_le), hvalue]
      rfl
    · rw [exec_store_alloca ty (by rw [hact.valueRegister]; exact ty.storeSize_le), hvalue]
      rfl
  rw [nativeCallCode, runCode, Progress.call_eq hanswer, contextCheck, List.cons_append,
    List.cons_append, runCode, List.map_nil, Progress.call_eq hstatus, List.cons_append,
    List.nil_append, runCode_step hcompare, runCode]
  simp only [Operand.eval_reg, Function.update_self]
  exact ⟨_, _, runCode_step hstore⟩

end SystemCall

/-! ### The VM entry thunk -/

section Thunk

variable {env : Env} {host : Host} {p p' p'' : Progress} {ps qs : List Piece} {stack : StackFrame}
  {e e' : EmitState} {ty : Ty}

/-- Pieces that run on run piece by piece. -/
theorem runsTo_append : RunsTo env host p (ps ++ qs) p'' ↔
    ∃ p', RunsTo env host p ps p' ∧ RunsTo env host p' qs p'' := by
  rw [RunsTo, List.foldlM_append, Option.bind_eq_bind, Option.bind_eq_some_iff]
  rfl

/-- An instruction leaves the registers alone that it does not define. -/
theorem Instr.exec_of_ne {i : Instr} {regs regs' : Regs} {mem mem' : Bytes.Mem} {r : ℕ}
    (hr : i.dst ≠ some r) (h : i.exec env regs mem = some (regs', mem')) : regs' r = regs r := by
  have hne : ∀ {k : ℕ}, some k ≠ some r → r ≠ k := fun hk heq => hk (congrArg some heq.symm)
  cases i with
  | load | store | memset =>
      rw [Instr.exec] at h
      split at h
      · obtain ⟨rfl, -⟩ := Prod.mk.inj (Option.some.inj h)
        first | rfl | exact Function.update_of_ne (hne hr) _ _
      · exact absurd h (Option.some_ne_none _).symm
  | binop =>
      obtain ⟨v, -, h⟩ := Option.map_eq_some_iff.mp h
      obtain ⟨rfl, -⟩ := Prod.mk.inj h
      exact Function.update_of_ne (hne hr) _ _
  | call => exact absurd h (Option.some_ne_none _).symm
  | _ =>
      obtain ⟨rfl, -⟩ := Prod.mk.inj (Option.some.inj h)
      first | rfl | exact Function.update_of_ne (hne hr) _ _

/-- Pieces leave the registers alone that they do not define. -/
theorem RunsTo.kept (h : RunsTo env host p ps p') {r : ℕ} (hr : r ∉ definedRegisters ps) :
    p'.regs r = p.regs r := by
  induction ps generalizing p with
  | nil => rw [runsTo_nil.mp h]
  | cons piece ps ih =>
      obtain ⟨p₁, hpiece, hps⟩ := runsTo_cons.mp h
      have hdst : piece.dst ≠ some r := by
        intro hdst
        exact hr (List.mem_filterMap.mpr ⟨piece, List.mem_cons_self, hdst⟩)
      have hrest : r ∉ definedRegisters ps := by
        intro hmem
        obtain ⟨piece', hpiece', hdst'⟩ := List.mem_filterMap.mp hmem
        exact hr (List.mem_filterMap.mpr ⟨piece', List.mem_cons_of_mem _ hpiece', hdst'⟩)
      rw [ih hps hrest]
      cases piece with
      | check cond state =>
          obtain rfl := Option.some.inj hpiece
          rfl
      | instr i =>
          by_cases hcall : ∃ dst callee args, i = .call dst callee args
          · obtain ⟨dst, callee, args, rfl⟩ := hcall
            obtain rfl := Option.some.inj hpiece
            cases dst with
            | none => rfl
            | some k => exact Function.update_of_ne (fun heq => hdst (congrArg some heq.symm)) _ _
          · rw [Piece.run_instr fun dst callee args heq => hcall ⟨dst, callee, args, heq⟩] at hpiece
            obtain ⟨⟨regs, mem⟩, hexec, rfl⟩ := Option.map_eq_some_iff.mp hpiece
            exact Instr.exec_of_ne hdst hexec

/-- The addresses of the two registers of the VM, taken by the thunk. -/
theorem prologue_registers (h : RunsTo env host p thunkPrologue p') :
    p'.regs 2 = vmRegisters env + 24 ∧ p'.regs 3 = vmRegisters env + 32 := by
  rw [thunkPrologue] at h
  obtain ⟨p₁, h₁, h⟩ := runsTo_cons.mp h
  obtain ⟨p₂, h₂, h⟩ := runsTo_cons.mp h
  obtain ⟨p₃, h₃, h⟩ := runsTo_cons.mp h
  obtain ⟨p₄, h₄, h⟩ := runsTo_cons.mp h
  obtain rfl := runsTo_nil.mp h
  obtain rfl := Option.some.inj h₃
  obtain rfl := Option.some.inj h₄
  refine ⟨?_, ?_⟩
  · rfl
  · rfl

/-- **The code of the thunk**: the addresses of the registers of the VM are taken, the implementation
is called with one of them, and the program pointer is stored. -/
theorem vmEntryThunkBody_ends (hthrough : stack.scriptFunction.ReturnsThroughPointer)
    (hreturned : stack.scriptFunction.returnType.Returned ty) (hreg : e.nextReg = 0)
    (hout : e.out = []) (h : Runs (vmEntryThunkBody stack) e () e') :
    ∃ pre r target args r', e'.out = (thunkPrologue ++ pre) ++ (scriptCallCode r target
        (⟨.reg (if stack.scriptFunction.returnType.usesObjectRegister then 3 else 2), .ptr ty⟩ ::
          args) ++ thunkEpilogue r' e.retPointer) ∧ ∀ k ∈ definedRegisters pre, 4 ≤ k := by
  simp only [vmEntryThunkBody, vmRegister, runs_bind, runs_createInBoundsGEP, runs_createLoad,
    runs_get, runs_createStore] at h
  obtain ⟨_, _, ⟨rfl, rfl⟩, _, _, ⟨rfl, rfl⟩, _, _, ⟨rfl, rfl⟩, _, _, ⟨rfl, rfl⟩, n, u, hcall, _, _,
    ⟨rfl, rfl⟩, _, _, ⟨rfl, rfl⟩, rfl⟩ := h
  simp only [EmitState.extend_extend, EmitState.extend_nextReg, hreg, Nat.zero_add] at hcall ⊢
  obtain ⟨hret, -⟩ := Emits.effect (R := EmitEffect) hcall
  obtain ⟨pre, r, target, args, hcode, hpre⟩ := emitScriptCall_ends hthrough hreturned hcall
  refine ⟨pre, r, target, args, u.nextReg, ?_, by simpa [hreg] using hpre⟩
  have hregister : ∀ (v₁ v₂ v₃ : Value), v₂.op = .reg 2 → v₃.op = .reg 3 →
      pointerCast (returnRegister (some ⟨v₁, v₂, v₃⟩) stack.scriptFunction.returnType) (.ptr ty) =
        ⟨.reg (if stack.scriptFunction.returnType.usesObjectRegister then 3 else 2), .ptr ty⟩ := by
    intro v₁ v₂ v₃ h₂ h₃
    rw [returnRegister, pointerCast]
    split
    · exact congrArg (Value.mk · _) h₃
    · exact congrArg (Value.mk · _) h₂
  rw [hregister _ _ _ rfl rfl] at hcode
  simp only [EmitState.extend_out, EmitState.extend_retPointer, hcode, hret, hout, List.nil_append,
    List.append_assoc]
  rfl

/-- The end of a script call in the thunk, run. -/
theorem scriptCallCode_runsTo (env : Env) (host : Host) (p : Progress) (r : ℕ) (target : Operand)
    (args : List Value) {mem : Bytes.Mem}
    (hanswer : host (⟨.script target, args.map (·.eval env p.regs), p.world.mem⟩ :: p.world.calls) =
      (VmState.Ok.word, mem)) : ∃ regs, RunsTo env host p (scriptCallCode r target args)
        ⟨regs, mem, ⟨.script target, args.map (·.eval env p.regs), p.world.mem⟩ ::
          p.world.calls⟩ := by
  let request : Request := ⟨.script target, args.map (·.eval env p.regs), p.world.mem⟩
  let regs := Function.update (Function.update p.regs r VmState.Ok.word) (r + 1) 0
  refine ⟨regs, runsTo_cons.mpr ⟨_, rfl, runsTo_cons.mpr
    ⟨⟨regs, mem, request :: p.world.calls⟩, ?_, runsTo_cons.mpr ⟨_, ?_, runsTo_nil.mpr rfl⟩⟩⟩⟩
  · rw [Progress.call_eq hanswer, Piece.run_instr (by simp), exec_testOk]
    rfl
  · have htest : regs (r + 1) = 0 := Function.update_self _ _ _
    simp only [Piece.run, Operand.eval_reg, htest]
    rfl

end Thunk

/-- The registers of the VM that a thunk is entered with. -/
def vmRegisterPair (env : Env) : RegisterPair where
  value := (vmRegisters env).toNat + 24
  object := (vmRegisters env).toNat + 32
  apart := .inl (by omega)

/-! ### Every way of returning -/

/-- A value is returned by `RET` to a script call. -/
structure ReturnsToCall (function : ScriptFunction) (T T' : Translation) (env env' : Env)
    (host host' : Host) (call : BytecodeInstruction) (q : Position) (calls : List Request)
    (s s' : LocalState) (mem' : Bytes.Mem) : Prop where
  caller : Activates T env
  callee : Activates T' env'
  opcode : call.bc = .CALL ∨ call.bc = .CALLINTF
  called : T.stack.engine.getFunctionById call.argInt = some function
  type : T'.stack.scriptFunction.returnType = function.returnType
  stack : T'.stack.scriptFunction.doesReturnOnStack = false
  ret : ∃ context' bytecode' ret sp' ps' q', CodeOf context' T' bytecode' ret sp' ps' s'.position q' ∧
    ret.bc = .RET
  trip : ∃ context bytecode sp ps, CodeOf context T bytecode call sp ps s.position q ∧
    RoundTrip env host ps calls s env' host' s' mem'

/-- A value is returned by `RET` to the thunk that the VM has entered the implementation through. -/
structure ReturnsToThunk (T : Translation) (env env' : Env) (host host' : Host) (regs : Regs)
    (mem : Bytes.Mem) (s' : LocalState) (mem' : Bytes.Mem) : Prop where
  thunk : ∃ cfg, createVmEntryThunk T = .ok cfg ∧ env.blocks = cfg.blocks
  vm : (vmRegisters env).toNat + 40 ≤ 2 ^ 64
  callee : Activates T env'
  ret : ∃ context bytecode ret sp ps q, CodeOf context T bytecode ret sp ps s'.position q ∧
    ret.bc = .RET
  trip : ∃ e pre r target args post p, Runs (vmEntryThunkBody T.stack)
      { T.emit with nextReg := 0, out := [] } () e ∧
    e.out = pre ++ (scriptCallCode r target args ++ post) ∧ post.length = 2 ∧
    RunsTo env host ⟨regs, mem, []⟩ pre p ∧
    CalleeReturns host p.world target (args.map (·.eval env p.regs)) env' host' s' mem'

/-- A native function returns the value `v` to a system call: the call is made, the context reports
nothing, and the memory is `before` then. -/
structure ReturnsNatively (function : ScriptFunction) (T : Translation) (env : Env) (host : Host)
    (call : BytecodeInstruction) (q : Position) (calls : List Request) (s : LocalState) (v : Word)
    (before : Bytes.Mem) : Prop where
  caller : Activates T env
  opcode : call.bc = .CALLSYS ∨ call.bc = .Thiscall1
  called : T.stack.engine.getFunctionById call.argInt = some function
  inRegister : function.sysFuncIntf.hostReturnInMemory = false
  trip : ∃ context bytecode sp ps pre r target args tail p mem,
    CodeOf context T bytecode call sp ps s.position q ∧
    ps = pre ++ .instr (.call (some r) (.system target) args) :: tail ∧ tail.length = 4 ∧
    runCode env host pre ⟨s.regs, s.mem, calls⟩ = .goes p ∧
    host (⟨.system target, args.map (·.eval env p.regs), p.world.mem⟩ :: p.world.calls) = (v, mem) ∧
    host (⟨.runtime .checkExecutionStatus, [], mem⟩ :: ⟨.system target,
      args.map (·.eval env p.regs), p.world.mem⟩ :: p.world.calls) = (0, before)

/-- When a value that a native function returns arrives: its type is neither a reference to a handle nor
an object by itself, or the registers of the caller held the value. -/
def ReturnsRightlyNatively (type : DataType) (registers : RegisterPair) (returned : Word)
    (mem : Bytes.Mem) : Prop :=
  ¬ (type.isObjectHandle = true ∧ type.isReference = true ∨
      type.isObjectHandle = false ∧ type.isObject = true ∧ type.isReference = false) ∨
    Bytes.read mem registers.value 8 = returned ∧ Bytes.read mem registers.object 8 = returned

section Carrying

variable {function : ScriptFunction} {T T' : Translation} {env env' : Env} {host host' : Host}
  {call : BytecodeInstruction} {q : Position} {calls : List Request} {s s' : LocalState}
  {regs : Regs} {mem mem' : Bytes.Mem} {ty : Ty}

/-- **From the thunk to `RET` and back**: the thunk finishes, and the value has arrived iff
`ReturnsRightly`. -/
theorem ReturnsToThunk.carries (h : ReturnsToThunk T env env' host host' regs mem s' mem')
    (hthrough : T.stack.scriptFunction.ReturnsThroughPointer)
    (hreturned : T.stack.scriptFunction.returnType.Returned ty) :
    ∃ calls after, Finishes env host [] (.enter regs mem) calls after ∧
      (Carries T.stack.scriptFunction.returnType ty (vmRegisterPair env)
        (returnedValue T.stack.scriptFunction.returnType ty env' s'.mem) s'.mem after ↔
          ReturnsRightly T.stack.scriptFunction.returnType ty (vmRegisterPair env) env' s'.mem) := by
  obtain ⟨cfg, hthunk, hblocks⟩ := h.thunk
  obtain ⟨e, q, hrun, hcode, hret⟩ := createVmEntryThunk_code hthunk
  obtain ⟨pre, r, target, args, r', hout, hpre⟩ :=
    vmEntryThunkBody_ends hthrough hreturned rfl rfl hrun
  obtain ⟨e', pre', r₁, target', args', post, p, hrun', hout', hpost, hruns, hargs,
    ⟨regs', calls', calls'', -, hreturns⟩, hanswer⟩ := h.trip
  obtain ⟨-, rfl⟩ := hrun.det hrun'
  -- the code splits where the call is
  obtain ⟨hsplit, hrest⟩ := List.append_inj' (hout'.symm.trans hout) (by
    rw [List.length_append, List.length_append, hpost]
    rfl)
  obtain ⟨⟨rfl, rfl, rfl⟩, -, rfl⟩ : (r₁ = r ∧ target' = target ∧ args' = ⟨.reg (if
      T.stack.scriptFunction.returnType.usesObjectRegister then 3 else 2), .ptr ty⟩ :: args) ∧
        r₁ = r ∧ post = thunkEpilogue r' T.emit.retPointer := by
    simpa [scriptCallCode] using hrest
  rw [hsplit] at hruns
  obtain ⟨p₁, hprologue, hruns'⟩ := runsTo_append.mp hruns
  obtain ⟨hvalue, hobject⟩ := prologue_registers hprologue
  have hkept : ∀ k < 4, p.regs k = p₁.regs k := by
    intro k hk
    exact hruns'.kept fun hmem => absurd (hpre k hmem) (by omega)
  have hfirst : (env'.args.getD 0 0).toNat = if T.stack.scriptFunction.returnType.usesObjectRegister
      then (vmRegisterPair env).object else (vmRegisterPair env).value := by
    have hvm := h.vm
    have hword : env'.args.getD 0 0 =
        p.regs (if T.stack.scriptFunction.returnType.usesObjectRegister then 3 else 2) := by
      rw [hargs]
      exact Ty.truncate_ptr ty _
    rw [hword]
    split
    · rw [hkept 3 (by decide), hobject, BitVec.toNat_add, show BitVec.toNat (32 : Word) = 32 from rfl]
      exact Nat.mod_eq_of_lt (by omega)
    · rw [hkept 2 (by decide), hvalue, BitVec.toNat_add, show BitVec.toNat (24 : Word) = 24 from rfl]
      exact Nat.mod_eq_of_lt (by omega)
  obtain ⟨context, bytecode, ret, sp, ps, q', hcodeOf, hbc⟩ := h.ret
  have hleft := hcodeOf.ret_returns hbc h.callee hreturned hthrough.2 host' calls' rfl
  obtain ⟨-, rfl⟩ := hreturns.det hleft
  obtain ⟨regs₂, hcall⟩ := scriptCallCode_runsTo env host p r₁ target' _ hanswer
  obtain ⟨final, hall, hmem⟩ : ∃ final, RunsTo env host ⟨regs, mem, []⟩ e.out final ∧
      final.world.mem = Bytes.write (Bytes.write s'.mem (env'.args.getD 0 0).toNat ty.storeSize
        (ty.truncate (takenValue T.stack.scriptFunction.returnType ty env' s'.mem)))
          (vmRegisters env).toNat 8 (programPointerWord env T.emit.retPointer) := by
    rw [hout]
    exact ⟨_, hruns.append (hcall.append (epilogue_runsTo env host _ r' T.emit.retPointer)), rfl⟩
  rw [← hblocks] at hcode hret
  have hstep : (final.toLocalState q).step env = .retVoid := by
    rw [LocalState.step, Progress.toLocalState, hret]
  refine ⟨_, _, hcode.finishes hall (.retVoid hstep), ?_⟩
  rw [← carries_ret_iff hreturned, Progress.toLocalState, hmem, hfirst]
  have hvalueApart : (vmRegisters env).toNat + 8 ≤ (vmRegisterPair env).value :=
    Nat.add_le_add_left (by decide) _
  have hobjectApart : (vmRegisters env).toNat + 8 ≤ (vmRegisterPair env).object :=
    Nat.add_le_add_left (by decide) _
  exact carries_congr (Bytes.read_write_disjoint (.inr hobjectApart))
    fun n _ => Bytes.read_write_disjoint (.inr hvalueApart)

/-- The register of a system call is another one than that of the type iff the type is a reference to
a handle, or an object by itself. -/
theorem DataType.isObjectHandle_eq (type : DataType) :
    type.isObjectHandle = (!type.inValueRegister) ↔
      ¬ (type.isObjectHandle = true ∧ type.isReference = true ∨
        type.isObjectHandle = false ∧ type.isObject = true ∧ type.isReference = false) := by
  rw [inValueRegister]
  cases type.isReference <;> cases type.isObjectHandle <;> cases type.isObject <;> decide

/-- **What a system call leaves**, of the value `v`. -/
theorem carries_native_iff {type : DataType} (hreturned : type.Returned ty)
    (registers : RegisterPair) (v : Word) (before : Bytes.Mem) :
    Carries type ty registers (ty.truncate v) before (Bytes.write before
      (if type.isObjectHandle then registers.object else registers.value) ty.storeSize
      (ty.truncate v)) ↔ ReturnsRightlyNatively type registers (ty.truncate v) before := by
  have hpointer : type.isObjectHandle = type.inValueRegister ∨ type.isObjectHandle = true →
      ∃ ty', ty = .ptr ty' := by
    intro h
    refine hreturned.eq_ptr ?_
    rw [DataType.inValueRegister] at h
    revert h
    cases type.isReference <;> cases type.isObjectHandle <;> cases type.isObject <;> simp
  rw [carries_iff _ hpointer fun _ => rfl, ReturnsRightlyNatively, ← type.isObjectHandle_eq]
  refine or_congr_right' fun hne => ?_
  obtain ⟨ty', rfl⟩ := hpointer (.inl (Bool.eq_not.not_left.mp hne))
  rw [Ty.truncate_ptr]
  split
  · rfl
  · exact and_comm

/-- **From a system call and back**: the caller goes on, and the value has arrived iff
`ReturnsRightlyNatively`. -/
theorem ReturnsNatively.carries {v : Word} {before : Bytes.Mem}
    (h : ReturnsNatively function T env host call q calls s v before)
    (hstack : function.doesReturnOnStack = false) (hreturned : function.returnType.Returned ty) :
    ∃ regs calls' after, Reaches env host (fun _ => True) calls s calls'
      ⟨q, regs, after, some call.offset⟩ ∧
      (Carries function.returnType ty h.caller.registers (ty.truncate v) before after ↔
        ReturnsRightlyNatively function.returnType h.caller.registers (ty.truncate v) before) := by
  obtain ⟨context, bytecode, sp, ps, pre', r', target', args', tail, p, mem, hcode, hps, htail, hpre,
    hanswer, hstatus⟩ := h.trip
  have hreached := hcode.reached host (fun _ => True) calls h.caller.blocks rfl fun _ _ => trivial
  have hordinary : call.bc.endsBlock = false := by
    rcases h.opcode with hbc | hbc <;> rw [hbc] <;> rfl
  obtain ⟨e, e', -, hout, rfl, hruns⟩ := hcode.ordinary hordinary
  have hemit : Runs (emitSystemCall T.stack function) e () e' := by
    rcases h.opcode with hbc | hbc <;>
      · simp only [translateOrdinary, hbc, h.called, runs_bind, runs_asllvmAssert,
          runs_dereference] at hruns
        obtain ⟨_, _, ⟨-, rfl⟩, _, _, ⟨hfunction, rfl⟩, hcall⟩ := hruns
        obtain rfl := Option.some.inj hfunction
        exact hcall
  obtain ⟨pre, r, target, args, hend⟩ := emitSystemCall_ends hstack h.inRegister hreturned hemit
  rw [hout, List.nil_append] at hend
  obtain ⟨rfl, hlast⟩ := List.append_inj' (hps.symm.trans hend) (by
    rw [List.length_cons, htail]
    rfl)
  obtain ⟨⟨rfl, rfl, rfl⟩, -⟩ : (r' = r ∧ target' = target ∧ args' = args) ∧ _ := by
    simpa [nativeCallCode] using hlast
  obtain ⟨regs, calls', hgoes⟩ := nativeCallCode_goes function.returnType ty h.caller host p r'
    target' args' hanswer hstatus
  rw [hend, runCode_append, hpre] at hreached
  dsimp only at hreached
  rw [hgoes] at hreached
  exact ⟨regs, calls', _, hreached, carries_native_iff hreturned h.caller.registers v before⟩

/-- **When a value travels through the register the bytecode expects**, for a function that returns
through one: from `RET` to a script call and to the thunk iff its type is no reference to an object or
a handle, and from a native function iff its type is neither a reference to a handle nor an object by
itself — or else if the registers of the caller hold already what they should hold. -/
theorem returnValues_iff (hthrough : function.ReturnsThroughPointer)
    (hreturned : function.returnType.Returned ty) :
    (∀ T T' env env' host host' call q calls s s' mem',
      ∀ h : ReturnsToCall function T T' env env' host host' call q calls s s' mem',
      (∃ regs calls', Reaches env host (fun _ => True) calls s calls'
        ⟨q, regs, mem', some call.offset⟩) ∧
      (Carries function.returnType ty h.caller.registers
          (returnedValue function.returnType ty env' s'.mem) s'.mem mem' ↔
        ReturnsRightly function.returnType ty h.caller.registers env' s'.mem)) ∧
    (∀ T env env' host host' regs mem s' mem',
      ReturnsToThunk T env env' host host' regs mem s' mem' → T.stack.scriptFunction = function →
      ∃ calls after, Finishes env host [] (.enter regs mem) calls after ∧
        (Carries function.returnType ty (vmRegisterPair env)
            (returnedValue function.returnType ty env' s'.mem) s'.mem after ↔
          ReturnsRightly function.returnType ty (vmRegisterPair env) env' s'.mem)) ∧
    (∀ T env host call q calls s v before,
      ∀ h : ReturnsNatively function T env host call q calls s v before,
      ∃ regs calls' after, Reaches env host (fun _ => True) calls s calls'
        ⟨q, regs, after, some call.offset⟩ ∧
        (Carries function.returnType ty h.caller.registers (ty.truncate v) before after ↔
          ReturnsRightlyNatively function.returnType h.caller.registers (ty.truncate v) before)) := by
  refine ⟨?_, ?_, ?_⟩
  · intro T T' env env' host host' call q calls s s' mem' h
    obtain ⟨context', bytecode', ret, sp', ps', q', hret, hretbc⟩ := h.ret
    obtain ⟨context, bytecode, sp, ps, hcode, htrip⟩ := h.trip
    exact hcode.roundTrip h.opcode h.called hthrough hreturned hret hretbc h.type h.stack h.caller
      h.callee rfl rfl htrip
  · intro T env env' host host' regs mem s' mem' h hfunction
    subst hfunction
    exact h.carries hthrough hreturned
  · intro T env host call q calls s v before h
    exact h.carries hthrough.2 hreturned

end Carrying

/-! ### A script function that returns an `int` -/

/-- `int g()`. -/
def intFunction : ScriptFunction := .free 2 (.primitive .ttInt) [] 4

/-- `g`, or a function that may call it. -/
def intContext (function : ScriptFunction) : FunctionContext where
  engine := .ofFunctions [intFunction]
  config := ⟨false, true⟩
  scriptFunction := function

/-- The bytecode of `g`, which returns `7`. -/
def intBytecode : List BytecodeInstruction := [
  setV4At 7 0,
  cpyVtoR4At 0x10000 2,
  retAt 3]

/-- A call of `g`. -/
def intCall : BytecodeInstruction := callAt 2 0

/-- The code of `g`, up to its `RET`. -/
def intEntry : List Item := prologue 32 ++ [
  .marker 0, .instr (.store .i32 (.const 7) (.frame .storage 28)),
  .marker 2, .instr (.load 0 .i32 (.frame .storage 28)),
  .instr (.store .i32 (.reg 0) (.frame .valueRegister 0)), .marker 3]

theorem intBytecode_walked : Walked intBytecode := by
  simp [intBytecode, setV4At, cpyVtoR4At, retAt, WalkedFrom, BytecodeInstruction.next]

theorem intCall_walked : Walked [intCall, retAt 2] := by
  simp [intCall, callAt, retAt, WalkedFrom, BytecodeInstruction.next]

theorem translateBytecode_int :
    ∃ T, translateBytecode (intContext intFunction) intBytecode = .ok T ∧
      (T.stack.parameters, T.stack.totalSpace, (T.cfg.blocks .entry).take 12,
        (createVmEntryThunk T).toOption.isSome) = ([], 8, intEntry, true) :=
  exists_ok_of_map (by decide +kernel)

theorem translateBytecode_intCall :
    ∃ T, translateBytecode (intContext (.free 3 (.primitive .ttVoid) [] 4)) [intCall, retAt 2] =
      .ok T ∧ (T.stack.parameters, T.stack.totalSpace) = ([], 8) :=
  exists_ok_of_map (by decide +kernel)

theorem intFunction_returned : intFunction.returnType.Returned .i32 :=
  ⟨rfl, by decide, rfl, fun h => absurd h (by decide)⟩

section IntFunction

variable {T : Translation} {env : Env}

/-- **`g` comes to its `RET`** with `7` in its value register. -/
theorem intFunction_reaches (hT : translateBytecode (intContext intFunction) intBytecode = .ok T)
    (htotal : T.stack.totalSpace = 8) (hentry : intEntry <+: T.cfg.blocks .entry)
    (hact : Activates T env) (host : Host) (regs : Regs) (mem : Bytes.Mem) :
    ∃ s' ret sp ps q, Reaches env host (fun _ => True) [] (.enter regs mem) [] s' ∧
      CodeOf (intContext intFunction) T intBytecode ret sp ps s'.position q ∧ ret.bc = .RET ∧
      returnedValue (.primitive .ttInt) .i32 env s'.mem = 7 := by
  have hitem : ∀ k item, intEntry[k]? = some item →
      itemAt env.blocks (.entry, k) = some item := by
    intro k item hk
    rw [hact.blocks]
    exact itemAt_of_prefix hentry hk
  have hframe : T.stack.InFrame 1 4 := StackFrame.inFrame_storage (by decide) (by omega) (by decide)
  have hslot : T.stack.slotAddress 1 = .frame .storage 28 := by
    rw [StackFrame.slotAddress, if_neg (by decide), htotal]
    rfl
  have hsize : env.layout.size .storage = 32 := by rw [hact.storage, htotal]; rfl
  obtain ⟨mem₀, hprologue⟩ := @LocalState.steps_prologue T env 32 (.enter regs mem) hact hsize
    ((List.prefix_append _ _).trans hentry) rfl
  generalize Bytes.fill mem₀ _ _ _ = mem₁ at hprologue
  let address := T.stack.byteAddress env.layout 1
  let mem₂ := Bytes.write mem₁ address 4 ((Ty.i32).truncate 7)
  let regs₁ := Function.update regs 0 ((Ty.i32).truncate (Bytes.read mem₂ address 4))
  let mem₃ := Bytes.write mem₂ (env.addressOf .valueRegister) 4 ((Ty.i32).truncate (regs₁ 0))
  have hset := hframe.exec_store .i32 hact regs mem₁ (.const 7)
  have hload := hframe.exec_load .i32 hact regs mem₂ 0
  have hstore := @exec_store_alloca env .valueRegister .i32
    (by rw [hact.valueRegister]; decide) regs₁ mem₂ (.reg 0)
  rw [hslot] at hset hload
  have hsteps : LocalState.steps env 5 ⟨(.entry, 6), regs, mem₁, none⟩ =
      some ⟨(.entry, 11), regs₁, mem₃, some 2⟩ := by
    rw [LocalState.steps_succ (LocalState.step_marker (hitem 6 _ rfl)),
      LocalState.steps_succ (LocalState.step_instr (hitem 7 _ rfl) hset),
      LocalState.steps_succ (LocalState.step_marker (hitem 8 _ rfl)),
      LocalState.steps_succ (LocalState.step_instr (hitem 9 _ rfl) hload),
      LocalState.steps_succ (LocalState.step_instr (hitem 10 _ rfl) hstore)]
    rfl
  have hmarker : itemAt T.cfg.blocks (.entry, 11) = some (.marker 3) :=
    itemAt_of_prefix hentry rfl
  obtain ⟨ret, sp, ps, q, hoffset, hcode⟩ := exists_codeOf_of_marker intBytecode_walked hT hmarker
  have hret : ret.bc = .RET := by
    have hins := hcode.mem
    simp only [intBytecode, List.mem_cons, List.not_mem_nil, or_false] at hins
    rcases hins with rfl | rfl | rfl
    · exact absurd hoffset (by decide)
    · exact absurd hoffset (by decide)
    · rfl
  refine ⟨_, ret, sp, ps, q, (Reaches.of_steps hprologue).trans (.of_steps hsteps), hcode, hret, ?_⟩
  have hread : (Ty.i32).truncate (Bytes.read mem₃ (env.addressOf .valueRegister) 4) =
      (Ty.i32).truncate (regs₁ 0) := read_write_truncate .i32 mem₂ _ (regs₁ 0)
  have hloaded : regs₁ 0 = (Ty.i32).truncate 7 :=
    (Function.update_self ..).trans (read_write_truncate .i32 mem₁ address 7)
  have hregister : (DataType.primitive .ttInt).inValueRegister = true := rfl
  rw [returnedValue, if_pos hregister]
  exact hread.trans (congrArg _ hloaded)

/-- **`g` answers a call**: its frame lies high up in the address space. -/
theorem intFunction_calleeReturns
    (hT : translateBytecode (intContext intFunction) intBytecode = .ok T)
    (hparameters : T.stack.parameters = []) (htotal : T.stack.totalSpace = 8)
    (hentry : intEntry <+: T.cfg.blocks .entry) (w : World) (target : Operand) (args : List Word) :
    ∃ env' s' mem', Activates T env' ∧
      (∀ (T₀ : Translation) (h₀ : T₀.stack.totalSpace ≤ 2 ^ 32) (args₀ : List Word)
        (symbols : Symbols),
        (T₀.envAt h₀ 0 (Nat.zero_le _) args₀ symbols).layout.Below env'.layout) ∧
      (∃ ret sp ps q, CodeOf (intContext intFunction) T intBytecode ret sp ps s'.position q ∧
        ret.bc = .RET) ∧
      CalleeReturns (fun _ => (VmState.Ok.word, mem')) w target args env' (fun _ => (0, w.mem)) s'
        mem' ∧ returnedValue (.primitive .ttInt) .i32 env' s'.mem = 7 := by
  have hact := T.activates_envAt (by omega) (by decide : 2 ^ 35 ≤ 2 ^ 63) args
    ⟨fun _ => 0, fun _ => 0, fun _ => 0, fun _ => 0⟩ (by rw [hparameters]; decide)
  have hcontext := translateBytecode_stack hT
  obtain ⟨s', ret, sp, ps, q, hreaches, hcode, hret, hreturned⟩ :=
    intFunction_reaches hT htotal hentry hact (fun _ => (0, w.mem)) (fun _ => 0) w.mem
  have hreturns := hcode.ret_returns hret hact (by rw [hcontext]; exact intFunction_returned)
    (by rw [hcontext]; rfl) (fun _ => (0, w.mem)) [] rfl
  exact ⟨_, s', _, hact, fun T₀ h₀ args₀ symbols => Translation.envAt_below h₀ _ le_rfl _,
    ⟨ret, sp, ps, q, hcode, hret⟩, ⟨rfl, ⟨_, _, _, hreaches, hreturns⟩, rfl⟩, hreturned⟩

/-- **The code of a call of `g`**, also in the thunk: the value register is passed. -/
theorem emitScriptCall_int_runs (stack : StackFrame) (entry : Option VmEntryCallContext)
    (e : EmitState) : Runs (emitScriptCall stack intFunction entry) e 0 (e.extend 2
      (scriptCallCode e.nextReg (.scriptFunction 2)
        [pointerCast (returnRegister entry intFunction.returnType) (.ptr .i32)])) := by
  have htypes : getScriptFunctionType stack.engine intFunction = .ok [.ptr .i32] := rfl
  have hassert : ∀ s : EmitState, Runs (asllvmAssert stack.config true) s () s :=
    fun s => runs_asllvmAssert.mpr ⟨fun _ => rfl, rfl⟩
  have hcallee : Runs (resolveCallee stack intFunction) e ⟨.scriptFunction 2, .pvoid⟩ e :=
    runs_bind.mpr ⟨(), e, hassert e, runs_pure.mpr ⟨rfl, rfl⟩⟩
  have hreturn : Runs (returnArguments stack entry intFunction [.ptr .i32]) e
      ([pointerCast (returnRegister entry intFunction.returnType) (.ptr .i32)], 0) e :=
    runs_bind.mpr ⟨.ptr .i32, e, runs_elementAt.mpr ⟨rfl, rfl⟩, runs_pure.mpr ⟨rfl, rfl⟩⟩
  refine runs_bind.mpr ⟨(), e, hassert e, runs_bind.mpr ⟨_, e, runs_lift.mpr ⟨htypes, rfl⟩,
    runs_bind.mpr ⟨_, e, hcallee, runs_bind.mpr ⟨_, e, hreturn,
    runs_bind.mpr ⟨([], 0), e, runs_pure.mpr ⟨rfl, rfl⟩,
    runs_bind.mpr ⟨([], 0), e, runs_pure.mpr ⟨rfl, rfl⟩,
    runs_bind.mpr ⟨_, _, runs_createCall_i8.mpr ⟨rfl, rfl⟩,
    runs_bind.mpr ⟨(), _, runs_emitCheckVmState.mpr rfl, runs_pure.mpr ⟨rfl, ?_⟩⟩⟩⟩⟩⟩⟩⟩⟩
  simp [scriptCallCode]

/-- The code of the thunk of `g`. -/
theorem vmEntryThunkBody_int_out (hfunction : T.stack.scriptFunction = intFunction) {e e' : EmitState}
    (hreg : e.nextReg = 0) (hout : e.out = []) (h : Runs (vmEntryThunkBody T.stack) e () e') :
    ∃ r retPointer, e'.out = thunkPrologue ++ (scriptCallCode 4 (.scriptFunction 2)
      [⟨.reg 2, .ptr .i32⟩] ++ thunkEpilogue r retPointer) := by
  simp only [vmEntryThunkBody, vmRegister, runs_bind, runs_createInBoundsGEP, runs_createLoad,
    runs_get, runs_createStore, hfunction] at h
  obtain ⟨_, _, ⟨rfl, rfl⟩, _, _, ⟨rfl, rfl⟩, _, _, ⟨rfl, rfl⟩, _, _, ⟨rfl, rfl⟩, n, u, hcall, _, _,
    ⟨rfl, rfl⟩, _, _, ⟨rfl, rfl⟩, rfl⟩ := h
  obtain ⟨-, rfl⟩ := hcall.det (emitScriptCall_int_runs _ _ _)
  refine ⟨6, e.retPointer, ?_⟩
  simp only [EmitState.extend_extend, EmitState.extend_nextReg, EmitState.extend_out,
    EmitState.extend_retPointer, hreg, hout, Nat.zero_add, List.nil_append]
  rfl

end IntFunction

/-- **`g` is called**, by a function whose frame lies below its own. -/
theorem exists_returnsToCall_int : ∃ T T' env env' host host' q s s' mem',
    ReturnsToCall intFunction T T' env env' host host' intCall q [] s s' mem' ∧
      env.layout.Below env'.layout ∧ returnedValue (.primitive .ttInt) .i32 env' s'.mem = 7 := by
  obtain ⟨T, hT, hcaller⟩ := translateBytecode_intCall
  obtain ⟨T', hT', hcallee⟩ := translateBytecode_int
  simp only [Prod.mk.injEq] at hcaller hcallee
  obtain ⟨hparameters, htotal⟩ := hcaller
  obtain ⟨hparameters', htotal', hentry, -⟩ := hcallee
  have hcontext := translateBytecode_stack hT
  have hcontext' := translateBytecode_stack hT'
  let symbols : Symbols := ⟨fun _ => 0, fun _ => 0, fun _ => 0, fun _ => 0⟩
  let env := T.envAt (by omega) 0 (Nat.zero_le _) [] symbols
  have hact : Activates T env :=
    T.activates_envAt _ (Nat.zero_le _) [] symbols (by rw [hparameters]; decide)
  obtain ⟨ps, p, q, hcode⟩ := exists_codeOf_at [] _ intCall_walked hT
  have hcalled : T.stack.engine.getFunctionById intCall.argInt = some intFunction := by
    rw [hcontext]
    rfl
  obtain ⟨e, e', -, hout, hps, hruns⟩ := hcode.ordinary rfl
  obtain rfl : ps = scriptCallCode e.nextReg (.scriptFunction 2)
      [pointerCast (returnRegister none intFunction.returnType) (.ptr .i32)] := by
    have hbc : intCall.bc = .CALL := rfl
    simp only [translateOrdinary, hbc, hcalled, runs_bind, runs_dereference, runs_pure] at hruns
    obtain ⟨_, _, ⟨hfunction, rfl⟩, n, _, hcall, -, rfl⟩ := hruns
    obtain rfl := Option.some.inj hfunction
    obtain ⟨-, rfl⟩ := hcall.det (emitScriptCall_int_runs _ none _)
    rw [← hps, EmitState.extend_out, hout, List.nil_append]
  let regs : Regs := fun _ => 0
  obtain ⟨env', s', mem', hact', hbelow, ⟨ret, sp, ps, q', hret, hretbc⟩, hreturns, hseven⟩ :=
    intFunction_calleeReturns hT' hparameters' htotal' (hentry ▸ List.take_prefix 12 _)
      ⟨fun _ => 0, []⟩ (.scriptFunction 2)
      ([pointerCast (returnRegister none intFunction.returnType) (.ptr .i32)].map (·.eval env regs))
  exact ⟨T, T', env, env', _, _, q, ⟨p, regs, fun _ => 0, none⟩, s', mem',
    ⟨hact, hact', .inl rfl, hcalled, by rw [hcontext']; rfl, by rw [hcontext']; rfl,
      ⟨_, _, ret, sp, ps, q', hret, hretbc⟩,
      ⟨_, _, _, _, hcode, [], _, _, _, ⟨regs, fun _ => 0, []⟩, rfl, rfl, hreturns⟩⟩,
    hbelow T _ [] symbols, hseven⟩

/-- **`g` is entered by the VM**, whose registers lie at `4096`. -/
theorem exists_returnsToThunk_int : ∃ T env env' host host' regs mem s' mem',
    ReturnsToThunk T env env' host host' regs mem s' mem' ∧ T.stack.scriptFunction = intFunction ∧
      vmRegisters env = 4096 ∧ returnedValue (.primitive .ttInt) .i32 env' s'.mem = 7 := by
  obtain ⟨T, hT, hcallee⟩ := translateBytecode_int
  simp only [Prod.mk.injEq] at hcallee
  obtain ⟨hparameters, htotal, hentry, hsome⟩ := hcallee
  have hfunction : T.stack.scriptFunction = intFunction := by
    rw [translateBytecode_stack hT]
    rfl
  obtain ⟨cfg, hthunk⟩ := exists_ok_of_isSome hsome
  obtain ⟨e, -, hrun, -, -⟩ := createVmEntryThunk_code hthunk
  obtain ⟨r, retPointer, hout⟩ := vmEntryThunkBody_int_out hfunction rfl rfl hrun
  let env : Env := { T.env (by omega) [4096] with blocks := cfg.blocks }
  obtain ⟨env', s', mem', hact, -, ⟨ret, sp, ps, q, hret, hretbc⟩, hreturns, hseven⟩ :=
    intFunction_calleeReturns hT hparameters htotal (hentry ▸ List.take_prefix 12 _)
      ⟨fun _ => 0, []⟩ (.scriptFunction 2) [vmRegisters env + 24]
  obtain ⟨regs, hprologue, -⟩ := prologue_runsTo env (fun _ => (VmState.Ok.word, mem'))
    ⟨fun _ => 0, fun _ => 0, []⟩
  obtain ⟨hregister, -⟩ := prologue_registers hprologue
  have hargs : [(⟨.reg 2, .ptr .i32⟩ : Value)].map (·.eval env regs) = [vmRegisters env + 24] := by
    rw [List.map_cons, List.map_nil, Value.eval, Ty.truncate_ptr, Operand.eval_reg]
    exact congrArg (fun v => [v]) hregister
  have hvm : (vmRegisters env).toNat + 40 ≤ 2 ^ 64 := (by decide : (4096 : Word).toNat + 40 ≤ 2 ^ 64)
  refine ⟨T, env, env', _, _, fun _ => 0, fun _ => 0, s', mem', ⟨⟨cfg, hthunk, rfl⟩, hvm, hact,
    ⟨_, _, ret, sp, ps, q, hret, hretbc⟩, ⟨e, _, _, _, _, _, ⟨regs, fun _ => 0, []⟩, hrun, hout, rfl,
      hprologue, hargs ▸ hreturns⟩⟩, hfunction, rfl, hseven⟩

/-! ### A native function that returns a handle -/

/-- A handle, or a reference to one. -/
def handleType (isReference : Bool) : DataType :=
  ⟨.ttOther, false, isReference, true, true, some 1, asPtrSize⟩

/-- A C function without parameters that returns a handle, or a reference to one. -/
def handleFunction (isReference : Bool) : ScriptFunction :=
  { ScriptFunction.free 1 (handleType isReference) [] 0 with
    funcType := .asFUNC_SYSTEM
    sysFuncIntf := ⟨.ICC_CDECL, false, 0⟩ }

/-- A function that may call it. -/
def handleContext (isReference : Bool) : FunctionContext where
  engine := .ofFunctions [handleFunction isReference]
  config := ⟨false, true⟩
  scriptFunction := .free 2 (.primitive .ttVoid) [] 4

/-- The call. -/
def handleCall : BytecodeInstruction := callSysAt 1 0

/-- A call of a C function. -/
def handleBytecode : List BytecodeInstruction := [
  handleCall,
  retAt 2]

theorem handleBytecode_walked : Walked handleBytecode := by
  simp [handleBytecode, handleCall, callSysAt, retAt, WalkedFrom, BytecodeInstruction.next]

/-- A host whose native functions return `1`, and that changes no memory. -/
def Host.returningOne : Host
  | [] => (0, fun _ => 0)
  | ⟨.system _, _, mem⟩ :: _ => (1, mem)
  | request :: _ => (0, request.mem)

theorem handleType_returned (isReference : Bool) :
    (handleType isReference).Returned (.ptr (.struct 1)) := by
  cases isReference with
  | false => exact ⟨rfl, by decide, rfl, fun _ => rfl⟩
  | true => exact ⟨rfl, by decide, rfl, fun _ => rfl⟩

theorem translateBytecode_handle (isReference : Bool) :
    ∃ T, translateBytecode (handleContext isReference) handleBytecode = .ok T ∧
      T.stack.parameters = [] := by
  cases isReference with
  | false => exact exists_ok_of_map (by decide +kernel)
  | true => exact exists_ok_of_map (by decide +kernel)

/-- The call of a native function that returns a handle, or a reference to one. -/
theorem exists_returnsNatively (isReference : Bool) : ∃ T env q s,
    ReturnsNatively (handleFunction isReference) T env .returningOne handleCall q [] s 1
      fun _ => 0 := by
  obtain ⟨T, hT, hparameters⟩ := translateBytecode_handle isReference
  obtain ⟨ps, p, q, hcode⟩ := exists_codeOf_at [] _ handleBytecode_walked hT
  obtain ⟨htotal, hengine⟩ : T.stack.totalSpace = 8 ∧
      T.stack.engine = (handleContext isReference).engine := by
    rw [hcode.stack_eq]
    exact ⟨rfl, rfl⟩
  have hact := T.activates_env (by omega) [] (by rw [hparameters]; decide)
  have hcalled : T.stack.engine.getFunctionById handleCall.argInt =
      some (handleFunction isReference) := by
    rw [hengine]
    rfl
  obtain ⟨e, e', -, hout, hps, hruns⟩ := hcode.ordinary rfl
  have hemit : Runs (emitSystemCall T.stack (handleFunction isReference)) e () e' := by
    have hbc : handleCall.bc = .CALLSYS := rfl
    simp only [translateOrdinary, hbc, hcalled, runs_bind, runs_asllvmAssert, runs_dereference]
      at hruns
    obtain ⟨_, _, ⟨-, rfl⟩, _, _, ⟨hfunction, rfl⟩, hcall⟩ := hruns
    obtain rfl := Option.some.inj hfunction
    exact hcall
  have hpieces : e'.out = .instr (.call none (.runtime .prepareSystemCall)
      [⟨.systemFunction 1, .pvoid⟩]) :: nativeCallCode e.nextReg (.systemFunction 1) []
        (handleType isReference) (.ptr (.struct 1)) := by
    have htype : getSystemFunctionType (handleFunction isReference) = .ok (.ptr (.struct 1), []) := by
      cases isReference <;> rfl
    have hreturn : ∀ r, Runs (popReturnPointer T.stack (handleFunction isReference) r) e none e :=
      fun r => runs_pure.mpr ⟨rfl, rfl⟩
    simp only [emitSystemCall, runs_bind, runs_lift, htype] at hemit
    obtain ⟨_, _, ⟨hsig, rfl⟩, returnPointer, s₁, hfirst, st, s₂, hloop, hfinish⟩ := hemit
    obtain rfl := Except.ok.inj hsig
    obtain ⟨rfl, rfl⟩ := hfirst.det (hreturn _)
    obtain ⟨rfl, rfl⟩ := runs_foldlM_nil.mp hloop
    have hcallee : systemCallee T.stack (handleFunction isReference) none =
        pure ⟨.systemFunction 1, .pvoid⟩ := rfl
    have hhandle : (handleFunction isReference).returnType.isObjectHandle = true := rfl
    simp only [finishSystemCall, checkObject, hcallee, callSystemFunction, List.length_nil,
      List.replicate_zero, List.mapM_nil, storeSystemResult, hhandle, runs_bind, runs_pure,
      runs_createCall_void, runs_createCall_ptr, runs_emitCheckContextState, if_true,
      T.stack.runs_uglyHack] at hfinish
    obtain ⟨_, _, ⟨-, rfl⟩, _, _, ⟨rfl, rfl⟩, _, s₅, ⟨_, _, ⟨-, rfl⟩, _, _, ⟨rfl, rfl⟩, _, _, ⟨rfl, rfl⟩, _,
      _, rfl, rfl, rfl⟩, _, s₆, hstore, rfl⟩ := hfinish
    rw [if_pos (by simp), runs_createStore] at hstore
    rw [hstore]
    simp [hout, nativeCallCode, contextCheck, handleType]
  refine ⟨T, _, q, ⟨p, fun _ => 0, fun _ => 0, none⟩, hact, .inl rfl, hcalled, rfl, _, _, _, ps,
    [.instr (.call none (.runtime .prepareSystemCall) [⟨.systemFunction 1, .pvoid⟩])], e.nextReg,
    .systemFunction 1, [], _, _, fun _ => 0, hcode, hps.symm.trans hpieces, rfl, rfl, rfl, rfl⟩

/-- An `int` that a script function returns to a script call and to the thunk, and a handle that a
native function returns. -/
theorem returnValues_iff_int :
    (∃ T T' env env' host host' q s s' mem',
      ∃ h : ReturnsToCall intFunction T T' env env' host host' intCall q [] s s' mem',
        env.layout.Below env'.layout ∧
        (∃ regs calls', Reaches env host (fun _ => True) [] s calls'
          ⟨q, regs, mem', some intCall.offset⟩) ∧
        Carries (.primitive .ttInt) .i32 h.caller.registers 7 s'.mem mem') ∧
    (∃ T env env' host host' regs mem s' mem',
      ReturnsToThunk T env env' host host' regs mem s' mem' ∧ T.stack.scriptFunction = intFunction ∧
      ∃ calls after, Finishes env host [] (.enter regs mem) calls after ∧
        Carries (.primitive .ttInt) .i32 (vmRegisterPair env) 7 s'.mem after) ∧
    ∃ T env q s,
      ∃ h : ReturnsNatively (handleFunction false) T env .returningOne handleCall q [] s 1 fun _ => 0,
        ∃ regs calls' after, Reaches env .returningOne (fun _ => True) [] s calls'
          ⟨q, regs, after, some handleCall.offset⟩ ∧
          Carries (handleType false) (.ptr (.struct 1)) h.caller.registers
            ((Ty.ptr (.struct 1)).truncate 1) (fun _ => 0) after := by
  have hthrough : intFunction.ReturnsThroughPointer := ⟨by decide, rfl⟩
  have hthrough' : (handleFunction false).ReturnsThroughPointer := ⟨by decide, rfl⟩
  obtain ⟨hcalled, hentered, -⟩ := returnValues_iff hthrough intFunction_returned
  obtain ⟨-, -, hnative⟩ := returnValues_iff hthrough' (handleType_returned false)
  refine ⟨?_, ?_, ?_⟩
  · obtain ⟨T, T', env, env', host, host', q, s, s', mem', h, hbelow, hseven⟩ :=
      exists_returnsToCall_int
    obtain ⟨hreaches, hcarries⟩ := hcalled _ _ _ _ _ _ _ _ _ _ _ _ h
    refine ⟨T, T', env, env', host, host', q, s, s', mem', h, hbelow, hreaches, ?_⟩
    rw [← hseven]
    exact hcarries.mpr (.inl (by decide))
  · obtain ⟨T, env, env', host, host', regs, mem, s', mem', h, hfunction, -, hseven⟩ :=
      exists_returnsToThunk_int
    obtain ⟨calls, after, hfinishes, hcarries⟩ := hentered _ _ _ _ _ _ _ _ _ h hfunction
    refine ⟨T, env, env', host, host', regs, mem, s', mem', h, hfunction, calls, after, hfinishes, ?_⟩
    rw [← hseven]
    exact hcarries.mpr (.inl (by decide))
  · obtain ⟨T, env, q, s, h⟩ := exists_returnsNatively false
    obtain ⟨regs, calls', after, hreaches, hcarries⟩ := hnative _ _ _ _ _ _ _ _ _ h
    exact ⟨T, env, q, s, h, regs, calls', after, hreaches, hcarries.mpr (.inl (by decide))⟩

/-- **A reference to a handle that a native function returns goes to the wrong register.** -/
theorem returnValues_not_handleReference : ∃ T env q s,
    ∃ h : ReturnsNatively (handleFunction true) T env .returningOne handleCall q [] s 1 fun _ => 0,
      ∃ regs calls' after, Reaches env .returningOne (fun _ => True) [] s calls'
        ⟨q, regs, after, some handleCall.offset⟩ ∧
        ¬ Carries (handleType true) (.ptr (.struct 1)) h.caller.registers
          ((Ty.ptr (.struct 1)).truncate 1) (fun _ => 0) after := by
  obtain ⟨T, env, q, s, h⟩ := exists_returnsNatively true
  obtain ⟨regs, calls', after, hreaches, hcarries⟩ := h.carries rfl (handleType_returned true)
  refine ⟨T, env, q, s, h, regs, calls', after, hreaches, fun hfalse => ?_⟩
  rcases hcarries.mp hfalse with hkind | ⟨hvalue, -⟩
  · exact hkind (.inl ⟨rfl, rfl⟩)
  · have hzero : Bytes.read (fun _ => 0) h.caller.registers.value 8 = 0 := by simp [Bytes.read]
    rw [hzero] at hvalue
    exact absurd hvalue (by decide)

end Asllvm
