import Asllvm.CallFrames
import Asllvm.Host

/-!
# Entering from the VM

The thunk through which the AngelScript VM enters an implementation, executed. It is
straight-line code but for its checks, so its run is put together from the runs of its parts:
the slots are read one after another from the frame of the VM, the object is tested, the
implementation is called, and the state it returned is tested.

The VM keeps the slots of a call at increasing addresses from the stack frame pointer on: the
bytecode offset of a slot is minus its distance in dwords, and an offset `v` is the dword at
`stackFramePointer - v`. The thunk reads them at decreasing addresses.

## Main results

* `createVmEntryThunk_finishes` — the run of the thunk, for every frame and every host.
* `parameterArguments_readsSlots` — the parameters are read from the slots behind those before
  them.
* `createVmEntryThunk_code` — a thunk that was emitted is the body of the thunk, in its blocks.
-/

open StateExcept Slots

namespace Asllvm

/-- The value of a type at an address. -/
def valueAt (mem : Bytes.Mem) (address : Word) (ty : Ty) : Word :=
  ty.truncate (Bytes.read mem address.toNat ty.storeSize)

/-- Where the thunk reads the slot `o` dwords after the first one. -/
def thunkSlotAddress (framePointer : Word) (o : ℕ) : Word :=
  framePointer - BitVec.ofNat 64 (4 * o)

/-- Where the VM keeps the slot `o` dwords after the first one. -/
def vmSlotAddress (framePointer : Word) (o : ℕ) : Word := framePointer + BitVec.ofNat 64 (4 * o)

/-- The registers of the VM: the first argument of the thunk. -/
def vmRegisters (env : Env) : Word := env.args.getD 0 0

/-- `stackFramePointer`, the second of the registers. -/
def stackFramePointer (env : Env) (mem : Bytes.Mem) : Word :=
  Bytes.read mem (vmRegisters env + 8).toNat 8

theorem Ty.truncate_truncate (ty : Ty) (v : Word) : ty.truncate (ty.truncate v) = ty.truncate v := by
  have hbits : ty.bits ≤ 64 := by cases ty <;> simp [Ty.bits]
  rw [truncate, truncate, BitVec.setWidth_setWidth_of_le _ hbits, BitVec.setWidth_eq]

theorem truncate_valueAt (mem : Bytes.Mem) (address : Word) (ty : Ty) :
    ty.truncate (valueAt mem address ty) = valueAt mem address ty :=
  ty.truncate_truncate _

@[simp]
theorem Operand.eval_reg (env : Env) (regs : Regs) (r : ℕ) :
    (Operand.reg r).eval env regs = regs r := rfl

/-! ### Reading the slots -/

section Slots

variable {stack : StackFrame} {context : VmEntryCallContext} {env : Env} {host : Host}
  {s t u : EmitState} {framePointer : Word} {n m k : ℕ} {mem : Bytes.Mem}

/-- The value `v` is a register below `bound`, and holds the slot of the given type `o` dwords
after the first one, as the thunk addresses it. -/
def HoldsSlot (framePointer : Word) (mem : Bytes.Mem) (regs : Regs) (bound o : ℕ)
    (type : DataType) (v : Value) : Prop :=
  toLlvmType type = .ok v.ty ∧ ∃ r < bound, v.op = .reg r ∧
    regs r = valueAt mem (thunkSlotAddress framePointer o) v.ty

/-- The code emitted between `s` and `t` reads some slots, the first of them `n` dwords after the
first slot of the call. It leaves the registers before it, the memory and the calls alone. -/
structure ReadsSlots (env : Env) (host : Host) (framePointer : Word) (n : ℕ)
    (slots : List DataType) (s : EmitState) (vs : List Value) (m : ℕ) (t : EmitState) : Prop where
  read : m = n + slotDWords slots
  grows : s.nextReg ≤ t.nextReg
  code : ∃ ps, t.out = s.out ++ ps ∧ ∀ p : Progress, p.regs 1 = framePointer →
    ∃ regs, RunsTo env host p ps ⟨regs, p.world⟩ ∧ (∀ r < s.nextReg, regs r = p.regs r) ∧
      AtOffsets DataType.sizeOnStackDWords (HoldsSlot framePointer p.world.mem regs t.nextReg) n slots vs

/-- Registers defined later leave the values read alone. -/
theorem AtOffsets.holdsSlot_mono {regs regs' : Regs} {bound bound' : ℕ} {slots : List DataType}
    {vs : List Value}
    (h : AtOffsets DataType.sizeOnStackDWords (HoldsSlot framePointer mem regs bound) n slots vs)
    (hregs : ∀ r < bound, regs' r = regs r) (hbound : bound ≤ bound') :
    AtOffsets DataType.sizeOnStackDWords (HoldsSlot framePointer mem regs' bound') n slots vs := by
  refine h.imp fun o type v hv => ?_
  obtain ⟨hty, r, hr, hop, hval⟩ := hv
  exact ⟨hty, r, by omega, hop, by rw [hregs r hr, hval]⟩

theorem ReadsSlots.nil : ReadsSlots env host framePointer n [] s [] n s where
  read := by simp
  grows := Nat.le_refl _
  code := ⟨[], by simp, fun p _ => ⟨p.regs, by simp, fun _ _ => rfl, .nil⟩⟩

/-- Reading slots and then more slots is reading all of them. -/
theorem ReadsSlots.append {slots slots' : List DataType} {vs vs' : List Value}
    (hframe : 2 ≤ s.nextReg) (h : ReadsSlots env host framePointer n slots s vs m t)
    (h' : ReadsSlots env host framePointer m slots' t vs' k u) :
    ReadsSlots env host framePointer n (slots ++ slots') s (vs ++ vs') k u where
  read := by simp only [h'.read, h.read, slotDWords, total_append, Nat.add_assoc]
  grows := h.grows.trans h'.grows
  code := by
    obtain ⟨ps, hout, hps⟩ := h.code
    obtain ⟨qs, hout', hqs⟩ := h'.code
    refine ⟨ps ++ qs, by rw [hout', hout, List.append_assoc], fun p hp => ?_⟩
    obtain ⟨regs, hrun, hkept, hvalues⟩ := hps p hp
    obtain ⟨regs', hrun', hkept', hvalues'⟩ :=
      hqs ⟨regs, p.world⟩ (by rw [← hp]; exact hkept 1 (by omega))
    refine ⟨regs', hrun.append hrun', fun r hr => ?_, ?_⟩
    · exact (hkept' r (by have := h.grows; omega)).trans (hkept r hr)
    · rw [h.read] at hvalues'
      exact (AtOffsets.holdsSlot_mono hvalues hkept' h'.grows).append hvalues'

/-- The address of a slot, as the thunk computes it. -/
theorem slot_gep (framePointer : Word) (o : ℕ) :
    framePointer + BitVec.ofNat 64 4 * (((BitVec.ofInt 64 (-(o : ℤ))).setWidth 64).setWidth
        64).signExtend 64 = thunkSlotAddress framePointer o := by
  rw [BitVec.setWidth_eq, BitVec.setWidth_eq, BitVec.signExtend_eq, BitVec.ofInt_neg,
    BitVec.ofInt_natCast, BitVec.mul_neg, ← BitVec.ofNat_mul, thunkSlotAddress, BitVec.sub_eq_add_neg]

variable (env host framePointer)

/-- **One slot**: an address, and a load from it. -/
theorem popArgument_readsSlots {type : DataType} {v : Value}
    (hcontext : context.vmFramePointer.op = .reg 1)
    (h : Runs (popArgument stack (some context) type n) s (v, m) t) :
    ReadsSlots env host framePointer n [type] s [v] m t := by
  simp only [popArgument, runs_bind, runs_lift, runs_createInBoundsGEP, runs_createLoad, runs_pure,
    Prod.mk.injEq] at h
  obtain ⟨ty, s, ⟨hty, rfl⟩, _, _, ⟨rfl, rfl⟩, _, _, ⟨rfl, rfl⟩, ⟨rfl, rfl⟩, rfl⟩ := h
  refine ⟨by simp, by simp, _, by simp; rfl, fun p hp => ?_⟩
  have haddress : p.regs 1 + BitVec.ofNat 64 4 * (((constantInt .iptr (-(n : ℤ))).op.eval env
      p.regs).setWidth 64).signExtend 64 = thunkSlotAddress framePointer n := by
    rw [hp]
    exact slot_gep framePointer n
  refine ⟨Function.update (Function.update p.regs s.nextReg (thunkSlotAddress framePointer n))
    (s.nextReg + 1) (valueAt p.world.mem (thunkSlotAddress framePointer n) ty), ?_, ?_, ?_⟩
  · rw [← haddress]
    simp [Piece.run, Instr.exec, hcontext, Env.accessible, Ty.bits, valueAt]
  · intro r hr
    rw [Function.update_of_ne (by omega), Function.update_of_ne (by omega)]
  · refine .cons ⟨hty, s.nextReg + 1, by simp, rfl, ?_⟩ .nil
    rw [Function.update_self]

/-- The parameters are read one after another, by induction on their list. -/
theorem parameterArguments_readsSlots {types : List DataType} {vs : List Value}
    (hcontext : context.vmFramePointer.op = .reg 1) (hframe : 2 ≤ s.nextReg)
    (h : Runs (parameterArguments stack (some context) types n) s (vs, m) t) :
    ReadsSlots env host framePointer n types s vs m t := by
  induction types generalizing n s vs with
  | nil =>
      obtain ⟨⟨rfl, rfl⟩, rfl⟩ := by simpa [parameterArguments] using h
      exact .nil
  | cons type types ih =>
      simp only [parameterArguments, runs_bind, runs_pure, Prod.mk.injEq] at h
      obtain ⟨⟨v, k⟩, u, hpop, ⟨vs', l⟩, w, hrest, ⟨rfl, rfl⟩, rfl⟩ := h
      have hfirst := popArgument_readsSlots env host framePointer hcontext hpop
      exact hfirst.append hframe (ih (hframe.trans hfirst.grows) hrest)

/-- The slot of the address to return through, if it is on the stack. -/
def returnSlots (function : ScriptFunction) : List DataType :=
  if function.ReturnsOnStack then [function.returnType] else []

/-- The first arguments: a register of the VM that a value is returned through, or the address
read from the frame. -/
theorem returnArguments_readsSlots {callee : ScriptFunction} {types : List Ty} {vs : List Value}
    (hsupported : callee.Supported stack.engine) (hcontext : context.vmFramePointer.op = .reg 1)
    (h : Runs (returnArguments stack (some context) callee types) s (vs, m) t) :
    ∃ hidden first, vs = hidden ++ first ∧ hidden.length = hiddenArguments callee ∧
      ReadsSlots env host framePointer 0 (returnSlots callee) s first m t := by
  obtain ⟨hidden, first, rfl, -, hlen, hslot⟩ := runs_returnArguments hsupported h
  refine ⟨hidden, first, rfl, hlen, ?_⟩
  rw [returnSlots]
  rcases hslot with ⟨hret, v, rfl, hpop⟩ | ⟨hret, rfl, rfl, rfl⟩
  · rw [if_pos hret]
    exact popArgument_readsSlots env host framePointer hcontext hpop
  · rw [if_neg hret]
    exact .nil

/-- The slot of the object of a method. -/
def objectSlots (engine : Engine) (function : ScriptFunction) : List DataType :=
  (function.objectType.map engine.objectDataType).toList

/-- The pointer the thunk of a method tests for null. -/
def testedObject (function : ScriptFunction) (framePointer : Word) (mem : Bytes.Mem) :
    Option Word :=
  function.objectType.map fun _ =>
    Bytes.read mem (thunkSlotAddress framePointer (slotDWords (returnSlots function))).toNat 8

/-- AngelScript's type of an object is no primitive. -/
def ObjectsAreObjects (engine : Engine) (function : ScriptFunction) : Prop :=
  ∀ type ∈ objectSlots engine function, type.isPrimitive = false

/-- The check of the object fires as it should: in the thunk of a method only, and there if the
tested pointer is null. -/
structure FiresOnNull (engine : Engine) (function : ScriptFunction) (framePointer : Word)
    (mem : Bytes.Mem) (fired : Bool) : Prop where
  method : fired = true → function.objectType.isSome = true
  null : ObjectsAreObjects engine function →
    fired = decide (testedObject function framePointer mem = some 0)

theorem toLlvmType_eq_ptr {type : DataType} {ty : Ty} (htype : type.isPrimitive = false)
    (hty : toLlvmType type = .ok ty) : ∃ id, ty = .ptr (.struct id) := by
  rw [toLlvmType, htype] at hty
  split at hty
  · exact absurd ‹_› Bool.false_ne_true
  · split at hty
    · split at hty
      · exact ⟨_, (Except.ok.inj hty).symm⟩
      · exact absurd hty (by simp)
    · exact absurd hty (by simp)

/-- A pointer equals null as an integer iff it is null. -/
theorem holds_eq_null {ty : Ty} {id : ℤ} (hty : ty = .ptr (.struct id)) (v : Word) :
    Pred.eq.holds (v.setWidth ty.bits) ((0 : Word).setWidth ty.bits) = decide (v = 0) := by
  subst hty
  rw [Pred.holds, Bool.beq_eq_decide_eq, Ty.bits, BitVec.setWidth_eq, BitVec.setWidth_eq]

/-- The word of a pointer is what is read, whole. -/
theorem valueAt_ptr (mem : Bytes.Mem) (address : Word) (ty : Ty) :
    valueAt mem address (.ptr ty) = Bytes.read mem address.toNat 8 := by
  rw [valueAt, Ty.truncate_ptr, Ty.storeSize]

/-- **The object**: its slot is read and then tested, and a null object is reported. -/
theorem objectArguments_runsTo {callee : ScriptFunction} {vs : List Value}
    (hcontext : context.vmFramePointer.op = .reg 1)
    (h : Runs (objectArguments stack (some context) callee n) s (vs, m) t)
    (hn : n = slotDWords (returnSlots callee)) :
    m = n + slotDWords (objectSlots stack.engine callee) ∧ s.nextReg ≤ t.nextReg ∧
      ∃ ps, t.out = s.out ++ ps ∧ ∀ p : Progress, p.regs 1 = framePointer →
        ∃ regs fired, RunsTo env host p ps
            ⟨regs, p.world.reportIf host fired VmState.ExceptionNullPointer.word⟩ ∧
          (∀ r < s.nextReg, regs r = p.regs r) ∧
          FiresOnNull stack.engine callee framePointer p.world.mem fired ∧
          AtOffsets DataType.sizeOnStackDWords
            (HoldsSlot framePointer p.world.mem regs t.nextReg) n
            (objectSlots stack.engine callee) vs := by
  rw [objectArguments] at h
  cases hobject : callee.objectType with
  | none =>
      rw [hobject] at h
      obtain ⟨⟨rfl, rfl⟩, rfl⟩ := by simpa using h
      have hslots : objectSlots stack.engine callee = [] := by rw [objectSlots, hobject]; rfl
      rw [hslots]
      refine ⟨by simp, Nat.le_refl _, [], by simp, fun p _ => ⟨p.regs, false, by
        simp [World.reportIf], fun _ _ => rfl, ⟨nofun, fun _ => ?_⟩, .nil⟩⟩
      rw [testedObject, hobject]
      rfl
  | some objectType =>
      rw [hobject] at h
      simp only [runs_bind, runs_emitCheckNullPointer, runs_pure, Prod.mk.injEq] at h
      obtain ⟨⟨v, k⟩, u, hpop, _, _, rfl, ⟨rfl, rfl⟩, rfl⟩ := h
      have hslots : objectSlots stack.engine callee =
          [stack.engine.objectDataType objectType] := by rw [objectSlots, hobject]; rfl
      have hread := popArgument_readsSlots env host framePointer hcontext hpop
      obtain ⟨ps, hout, hps⟩ := hread.code
      rw [hslots]
      refine ⟨hread.read, hread.grows.trans (by simp), _,
        by rw [EmitState.extend_out, hout, List.append_assoc], fun p hp => ?_⟩
      obtain ⟨regs, hrun, hkept, hvalues⟩ := hps p hp
      obtain ⟨hty, r, hr, hop, hval⟩ : HoldsSlot framePointer p.world.mem regs u.nextReg n
          (stack.engine.objectDataType objectType) v := by
        cases hvalues with
        | cons hv _ => exact hv
      -- what the comparison of the object with null yields
      let isNull := Pred.eq.holds ((regs r).setWidth v.ty.bits) ((0 : Word).setWidth v.ty.bits)
      have hregs : ∀ r' < u.nextReg,
          Function.update regs u.nextReg (ofBool isNull) r' = regs r' :=
        fun r' hr' => Function.update_of_ne (by omega) _ _
      refine ⟨Function.update regs u.nextReg (ofBool isNull), isNull, hrun.append ?_,
        fun r' hr' => (hregs r' (by have := hread.grows; omega)).trans (hkept r' hr'), ?_,
        AtOffsets.holdsSlot_mono hvalues hregs (by simp)⟩
      · refine runsTo_cons.mpr ⟨⟨Function.update regs u.nextReg (ofBool isNull), p.world⟩, ?_,
          runsTo_cons.mpr ⟨_, ?_, runsTo_nil.mpr rfl⟩⟩
        · rw [Piece.run_instr (by simp), hop]
          rfl
        · simp only [Piece.run, Operand.eval_reg, Function.update_self, ofBool_getLsbD,
            VmState.const_eval]
          rfl
      · refine ⟨fun _ => by rw [hobject]; rfl, fun hobjects => ?_⟩
        have htype := hobjects (stack.engine.objectDataType objectType) (by rw [hslots]; simp)
        obtain ⟨id, hid⟩ := toLlvmType_eq_ptr htype hty
        rw [show isNull = _ from holds_eq_null hid (regs r), hval, hid, valueAt_ptr, testedObject,
          hobject, hn]
        simp

end Slots

/-! ### The run of the thunk -/

/-- The world after the implementation has been called, with the check of the object before. -/
def World.enter (host : Host) (w : World) (function : ScriptFunction) (fired : Bool)
    (args : List Word) : World :=
  (w.reportIf host fired VmState.ExceptionNullPointer.word).call host
    (.script (.scriptFunction function.id)) args

/-- The state the last call has returned. -/
def World.outcome (host : Host) (w : World) : Word := Ty.vmState.truncate (host w.calls).1

/-- The world after the state returned has been tested. -/
def World.reportOutcome (host : Host) (w : World) : World :=
  w.reportIf host (decide (w.outcome host ≠ VmState.Ok.word)) (w.outcome host)

/-- The arguments passed to the implementation hold the slots as the thunk addresses them: in the
memory at the start or, from the second slot on, in the one left by the check of the object. -/
def PassesThunkSlots (host : Host) (engine : Engine) (function : ScriptFunction)
    (framePointer : Word) (w : World) (fired : Bool) (args : List Word) : Prop :=
  ∀ k type, (scriptCallSlots engine function)[k]? = some type →
    ∃ ty mem, toLlvmType type = .ok ty ∧ args[hiddenArguments function + k]? = some (valueAt mem
      (thunkSlotAddress framePointer (slotOffset (scriptCallSlots engine function) k)) ty) ∧
      (mem = w.mem ∨ 0 < k ∧ mem = (w.reportIf host fired VmState.ExceptionNullPointer.word).mem)

section Run

variable {stack : StackFrame} {context : VmEntryCallContext} {env : Env} {host : Host}
  {s t : EmitState} {framePointer : Word} {n : ℕ}

/-- A function that is no virtual stub is called directly. -/
theorem runs_resolveCallee_script {callee : ScriptFunction} {v : Value}
    (hfunc : callee.funcType = .asFUNC_SCRIPT) :
    Runs (resolveCallee stack callee) s v t ↔
      (stack.config.assertions = true → callee.vfTableIdx < 0) ∧
        v = ⟨.scriptFunction callee.id, .pvoid⟩ ∧ t = s := by
  simp only [resolveCallee, hfunc, reduceCtorEq, if_false, getScriptFunction, runs_bind,
    runs_asllvmAssert, runs_pure, decide_eq_true_eq]
  constructor
  · rintro ⟨_, _, ⟨hindex, rfl⟩, rfl, rfl⟩
    exact ⟨hindex, rfl, rfl⟩
  · rintro ⟨hindex, rfl, rfl⟩
    exact ⟨(), _, ⟨hindex, rfl⟩, rfl, rfl⟩

/-- The state returned is compared with `Ok` as a byte. -/
theorem holds_ne_ok (v : Word) :
    Pred.ne.holds (v.setWidth Ty.vmState.bits) (VmState.Ok.word.setWidth Ty.vmState.bits) =
      decide (Ty.vmState.truncate v ≠ VmState.Ok.word) := by
  have h : Ty.vmState.truncate v = VmState.Ok.word ↔ v.setWidth Ty.vmState.bits =
      VmState.Ok.word.setWidth Ty.vmState.bits := by
    rw [Ty.truncate]
    constructor
    · intro h
      have := congrArg (BitVec.setWidth Ty.vmState.bits) h
      simpa [Ty.bits] using this
    · intro h
      rw [h]
      rfl
  simp [Pred.holds, bne, h, Bool.beq_eq_decide_eq]

variable (env host)

/-- **The script call of the thunk**: the slots are read, the object is tested, the implementation
is called, and the state it returns is tested. -/
theorem emitScriptCall_runsTo (framePointer : Word) {callee : ScriptFunction} (hfunc : callee.funcType = .asFUNC_SCRIPT)
    (hsupported : callee.Supported stack.engine) (hcontext : context.vmFramePointer.op = .reg 1)
    (hframe : 2 ≤ s.nextReg) (h : Runs (emitScriptCall stack callee (some context)) s n t) :
    ∃ ps, t.out = s.out ++ ps ∧ s.nextReg ≤ t.nextReg ∧
      ∀ p : Progress, p.regs 1 = framePointer → ∃ regs fired args,
        RunsTo env host p ps ⟨regs, (p.world.enter host callee fired args).reportOutcome host⟩ ∧
        (∀ r < s.nextReg, regs r = p.regs r) ∧
        FiresOnNull stack.engine callee framePointer p.world.mem fired ∧
        PassesThunkSlots host stack.engine callee framePointer p.world fired args := by
  simp only [emitScriptCall, runs_bind, runs_asllvmAssert, runs_lift,
    runs_resolveCallee_script hfunc, runs_createCall_i8, runs_emitCheckVmState, runs_pure] at h
  obtain ⟨_, s₀, ⟨-, rfl⟩, types, s₀', ⟨-, rfl⟩, _, s₁, ⟨-, rfl, rfl⟩, ⟨returned, n₁⟩, s₂,
    hreturned, ⟨object, n₂⟩, s₃, hobject, ⟨parameters, n₃⟩, s₄, hparameters, _, _, ⟨rfl, rfl⟩,
    _, _, rfl, rfl, rfl⟩ := h
  obtain ⟨hidden, first, rfl, hlen, hfirst⟩ := returnArguments_readsSlots env host
    framePointer hsupported hcontext hreturned
  obtain ⟨hread, hgrows, ps₂, hout₂, hps₂⟩ := objectArguments_runsTo env host
    framePointer hcontext hobject (by rw [hfirst.read, Nat.zero_add])
  have hrest := parameterArguments_readsSlots env host framePointer hcontext
    (hframe.trans (hfirst.grows.trans hgrows)) hparameters
  obtain ⟨ps₁, hout₁, hps₁⟩ := hfirst.code
  obtain ⟨ps₃, hout₃, hps₃⟩ := hrest.code
  have hgrows₁ := hfirst.grows
  have hgrows₃ := hrest.grows
  refine ⟨ps₁ ++ (ps₂ ++ (ps₃ ++ _)), by
    simp only [EmitState.extend_out, hout₃, hout₂, hout₁, List.append_assoc]; rfl, by
    simp only [EmitState.extend_nextReg]; omega, fun p hp => ?_⟩
  obtain ⟨regs₁, hrun₁, hkept₁, hv₁⟩ := hps₁ p hp
  obtain ⟨regs₂, fired, hrun₂, hkept₂, hfires, hv₂⟩ :=
    hps₂ ⟨regs₁, p.world⟩ (by rw [← hp]; exact hkept₁ 1 (by omega))
  obtain ⟨regs₃, hrun₃, hkept₃, hv₃⟩ :=
    hps₃ ⟨regs₂, p.world.reportIf host fired VmState.ExceptionNullPointer.word⟩
      (by rw [← hp]; exact (hkept₂ 1 (by omega)).trans (hkept₁ 1 (by omega)))
  dsimp only at hkept₂ hkept₃ hfires hv₂ hv₃ hrun₂
  -- the registers the slots were read into still hold them when the call is made
  have hv₁' : AtOffsets DataType.sizeOnStackDWords (HoldsSlot framePointer p.world.mem regs₃
      s₄.nextReg) 0 (returnSlots callee) first := AtOffsets.holdsSlot_mono hv₁
    (fun r hr => (hkept₃ r (by omega)).trans (hkept₂ r hr)) (by omega)
  have hv₂' := AtOffsets.holdsSlot_mono hv₂ hkept₃ hgrows₃
  let args := (hidden ++ (first ++ (object ++ parameters))).map (·.eval env regs₃)
  let w := p.world.enter host callee fired args
  let regs₄ := Function.update regs₃ s₄.nextReg (host w.calls).1
  let regs₅ := Function.update regs₄ (s₄.nextReg + 1)
    (ofBool (decide (w.outcome host ≠ VmState.Ok.word)))
  refine ⟨regs₅, fired, args, hrun₁.append (hrun₂.append (hrun₃.append ?_)), ?_, hfires, ?_⟩
  · refine runsTo_cons.mpr ⟨⟨regs₄, w⟩, rfl, runsTo_cons.mpr ⟨⟨regs₅, w⟩, ?_,
      runsTo_cons.mpr ⟨_, ?_, runsTo_nil.mpr rfl⟩⟩⟩
    · rw [Piece.run_instr (by simp)]
      have hreg : regs₄ s₄.nextReg = (host w.calls).1 := Function.update_self ..
      simp only [Instr.exec, Operand.eval_reg, hreg, Option.map_some]
      rw [show VmState.Ok.const.op.eval env regs₄ = VmState.Ok.word from rfl, holds_ne_ok]
      rfl
    · have hreg : regs₅ s₄.nextReg = (host w.calls).1 := by
        rw [show regs₅ s₄.nextReg = regs₄ s₄.nextReg from Function.update_of_ne (by omega) _ _]
        exact Function.update_self ..
      have hfired : regs₅ (s₄.nextReg + 1) = ofBool (decide (w.outcome host ≠ VmState.Ok.word)) :=
        Function.update_self ..
      simp only [Piece.run, Value.eval, EmitState.extend_nextReg, Operand.eval_reg, hreg, hfired,
        ofBool_getLsbD]
      rfl
  · intro r hr
    have h₅ : regs₅ r = regs₃ r := by
      rw [show regs₅ r = regs₄ r from Function.update_of_ne (by omega) _ _]
      exact Function.update_of_ne (by omega) _ _
    rw [h₅, hkept₃ r (by omega), hkept₂ r (by omega), hkept₁ r hr]
  · -- a slot after the object is read from the memory that the check of the object left
    let w₁ := p.world.reportIf host fired VmState.ExceptionNullPointer.word
    let Q := fun (o : ℕ) type v => ∃ mem, HoldsSlot framePointer mem regs₃ s₄.nextReg o type v ∧
      (mem = p.world.mem ∨ 0 < o ∧ mem = w₁.mem)
    have hobjectSlot : fired = true → 0 < n₂ := by
      intro hfired
      obtain ⟨objectType, hobjectType⟩ := Option.isSome_iff_exists.mp (hfires.method hfired)
      have hsize := (hsupported.slots (stack.engine.objectDataType objectType) (by
        simp [scriptCallSlots, hobjectType])).size_pos
      rw [hread, objectSlots, hobjectType]
      simp only [Option.map_some, Option.toList_some, slotDWords, total_cons, total_nil]
      omega
    have hQ₁ : AtOffsets DataType.sizeOnStackDWords Q 0 (returnSlots callee) first :=
      hv₁'.imp fun o type v hv => ⟨_, hv, .inl rfl⟩
    have hQ₂ : AtOffsets DataType.sizeOnStackDWords Q n₁ (objectSlots stack.engine callee) object :=
      hv₂'.imp fun o type v hv => ⟨_, hv, .inl rfl⟩
    have hQ₃ : AtOffsets DataType.sizeOnStackDWords Q n₂ callee.parameterTypes parameters := by
      refine hv₃.imp_of_le fun o type v ho hv => ⟨_, hv, ?_⟩
      cases hfired : fired with
      | false => exact .inl rfl
      | true => exact .inr ⟨by have := hobjectSlot hfired; omega, by rw [← hfired]⟩
    have hQ₂₃ := hQ₂.append (hread ▸ hQ₃)
    rw [hfirst.read] at hQ₂₃
    have hQ := hQ₁.append hQ₂₃
    intro k type hk
    obtain ⟨v, hv, mem, ⟨hty, r, -, hop, hval⟩, hmem⟩ := hQ.get hk
    rw [Nat.zero_add] at hval hmem
    refine ⟨v.ty, mem, hty, ?_, hmem.imp_right fun h => ⟨?_, h.2⟩⟩
    · rw [List.getElem?_map, ← hlen, List.getElem?_append_right (Nat.le_add_right _ _),
        Nat.add_sub_cancel_left, hv, Option.map_some, Value.eval, hop, Operand.eval_reg, hval,
        truncate_valueAt]
      rfl
    · rcases Nat.eq_zero_or_pos k with rfl | hpos
      · exact absurd h.1 (Nat.lt_irrefl 0)
      · exact hpos

/-- The word the program pointer is left at: the address of a `RET`, null if there is none. -/
def programPointerWord (env : Env) (retPointer : Option ℕ) : Word :=
  (retPointer.map env.symbols.bytecode).getD 0

/-- The world the thunk leaves: after the call, the program pointer is stored in the first of the
registers. -/
def World.leave (env : Env) (host : Host) (w : World) (function : ScriptFunction)
    (retPointer : Option ℕ) (fired : Bool) (args : List Word) : World :=
  let w := (w.enter host function fired args).reportOutcome host
  ⟨Bytes.write w.mem (vmRegisters env).toNat 8 (programPointerWord env retPointer), w.calls⟩

/-- The code before the call: the frame pointer is loaded, of the value and the object register the
address is taken. -/
def thunkPrologue : List Piece :=
  [.instr (.gep 0 (.arg 0) (constantInt .i32 1).op .i32 8), .instr (.load 1 (.ptr .i32) (.reg 0)),
    .instr (.gep 2 (.arg 0) (constantInt .i32 3).op .i32 8),
    .instr (.gep 3 (.arg 0) (constantInt .i32 4).op .i32 8)]

/-- The code after the call: the program pointer is stored in the first register of the VM. -/
def thunkEpilogue (r : ℕ) (retPointer : Option ℕ) : List Piece :=
  [.instr (.gep r (.arg 0) (constantInt .i32 0).op .i32 8),
    .instr (.store (.ptr .i32) ((retPointer.map Operand.bytecode).getD (.const 0)) (.reg r))]

theorem prologue_runsTo (p : Progress) : ∃ regs,
    RunsTo env host p thunkPrologue ⟨regs, p.world⟩ ∧
      regs 1 = stackFramePointer env p.world.mem := by
  let address := fun field : ℤ => vmRegisters env + BitVec.ofNat 64 8 *
    (((constantInt .i32 field).op.eval env p.regs).setWidth 32).signExtend 64
  let framePointer := stackFramePointer env p.world.mem
  refine ⟨Function.update (Function.update (Function.update (Function.update p.regs 0 (address 1)) 1
    framePointer) 2 (address 3)) 3 (address 4), ?_, ?_⟩
  · have hload : valueAt p.world.mem (address 1) (.ptr .i32) = framePointer := valueAt_ptr ..
    refine runsTo_cons.mpr ⟨_, rfl, runsTo_cons.mpr
      ⟨⟨Function.update (Function.update p.regs 0 (address 1)) 1 framePointer, p.world⟩, ?_,
        runsTo_cons.mpr ⟨_, rfl, runsTo_cons.mpr ⟨_, rfl, runsTo_nil.mpr rfl⟩⟩⟩⟩
    rw [← hload]
    rfl
  · rw [Function.update_of_ne (by decide), Function.update_of_ne (by decide), Function.update_self]

theorem epilogue_runsTo (p : Progress) (r : ℕ) (retPointer : Option ℕ) :
    RunsTo env host p (thunkEpilogue r retPointer)
      ⟨Function.update p.regs r (vmRegisters env),
        Bytes.write p.world.mem (vmRegisters env).toNat 8 (programPointerWord env retPointer),
        p.world.calls⟩ := by
  have haddress : vmRegisters env + BitVec.ofNat 64 8 * (((constantInt .i32 0).op.eval env
      p.regs).setWidth 32).signExtend 64 = vmRegisters env := BitVec.add_zero _
  refine runsTo_cons.mpr ⟨⟨Function.update p.regs r (vmRegisters env), p.world⟩, ?_,
    runsTo_cons.mpr ⟨_, ?_, runsTo_nil.mpr rfl⟩⟩
  · rw [Piece.run_instr (by simp), ← haddress]
    rfl
  · have hword : (Ty.ptr .i32).truncate (((retPointer.map Operand.bytecode).getD (.const 0)).eval
        env (Function.update p.regs r (vmRegisters env))) = programPointerWord env retPointer := by
      rw [Ty.truncate_ptr]
      cases retPointer <;> rfl
    rw [Piece.run_instr (by simp)]
    simp only [Instr.exec, Env.accessible, if_true, Operand.eval_reg, Function.update_self, hword]
    rfl

/-- The body of the thunk: the frame pointer is loaded, the call is made, and the program pointer
is stored. -/
theorem vmEntryThunkBody_runsTo (hfunc : stack.scriptFunction.funcType = .asFUNC_SCRIPT)
    (hsupported : stack.scriptFunction.Supported stack.engine) (hs : s.nextReg = 0)
    (h : Runs (vmEntryThunkBody stack) s () t) :
    ∃ ps, t.out = s.out ++ ps ∧ ∀ p : Progress, ∃ regs fired args,
      RunsTo env host p ps
        ⟨regs, p.world.leave env host stack.scriptFunction s.retPointer fired args⟩ ∧
      FiresOnNull stack.engine stack.scriptFunction (stackFramePointer env p.world.mem)
        p.world.mem fired ∧
      PassesThunkSlots host stack.engine stack.scriptFunction (stackFramePointer env p.world.mem)
        p.world fired args := by
  simp only [vmEntryThunkBody, vmRegister, runs_bind, runs_createInBoundsGEP, runs_createLoad,
    runs_get, runs_createStore] at h
  obtain ⟨_, _, ⟨rfl, rfl⟩, _, _, ⟨rfl, rfl⟩, _, _, ⟨rfl, rfl⟩, _, _, ⟨rfl, rfl⟩, n, u, hcall, _, _,
    ⟨rfl, rfl⟩, _, _, ⟨rfl, rfl⟩, rfl⟩ := h
  simp only [EmitState.extend_extend, EmitState.extend_nextReg, hs, Nat.zero_add] at hcall ⊢
  obtain ⟨hret, ps, hps⟩ := Emits.effect (R := EmitEffect) hcall
  have hout := hps.out
  rw [EmitState.extend_out] at hout
  rw [EmitState.extend_retPointer] at hret
  refine ⟨thunkPrologue ++ (ps ++ thunkEpilogue u.nextReg s.retPointer), by
    simp only [EmitState.extend_out, EmitState.extend_retPointer, hout, hret, List.append_assoc]
    rfl, fun p => ?_⟩
  obtain ⟨regs, hprologue, hframe⟩ := prologue_runsTo env host p
  obtain ⟨ps', hout', -, hcode⟩ := emitScriptCall_runsTo env host (regs 1) hfunc
    hsupported rfl (by simp) hcall
  obtain rfl : ps = ps' := List.append_cancel_left (hps.out.symm.trans hout')
  obtain ⟨regs', fired, args, hrun, -, hfires, hpasses⟩ := hcode ⟨regs, p.world⟩ rfl
  rw [hframe] at hfires hpasses
  exact ⟨_, fired, args, hprologue.append (hrun.append (epilogue_runsTo env host _ _ _)), hfires, hpasses⟩

end Run

/-- The thunk as it is entered, with any content of the registers. -/
def LocalState.enter (regs : Regs) (mem : Bytes.Mem) : LocalState := ⟨(.entry, 0), regs, mem, none⟩

/-- The code of the thunk: its body, and `ret void`. -/
theorem createVmEntryThunk_code {T : Translation} {cfg : Cfg} (h : createVmEntryThunk T = .ok cfg) :
    ∃ e q, Runs (vmEntryThunkBody T.stack) { T.emit with nextReg := 0, out := [] } () e ∧
      CodeAt .VmEntryThunk cfg.blocks (.entry, 0) e.out q ∧
      itemAt cfg.blocks q = some (.term .retVoid) := by
  rw [createVmEntryThunk] at h
  obtain ⟨⟨_, st⟩, hbody, hcfg⟩ := except_bind_ok.mp h
  obtain rfl := Except.ok.inj hcfg
  obtain ⟨e, hrun, rfl⟩ := runs_emitCode.mp hbody
  have hinto : ((e.out.foldl (Cfg.place .VmEntryThunk) Cfg.new).append (.term .retVoid)).BuiltInto
      ((e.out.foldl (Cfg.place .VmEntryThunk) Cfg.new).append (.term .retVoid)).blocks :=
    fun b => List.prefix_refl _
  exact ⟨e, _, hrun, (Cfg.foldl_place_codeAt e.out Cfg.new_fresh hinto.of_append).1,
    hinto.itemAt_append⟩

/-- **The run of the thunk**: for every frame of the VM and every host it finishes, having tested
the object, called the implementation with the slots it read, tested the state returned, and
stored the program pointer. -/
theorem createVmEntryThunk_finishes {T : Translation} {cfg : Cfg} {env : Env}
    (hfunc : T.stack.scriptFunction.funcType = .asFUNC_SCRIPT)
    (hsupported : T.stack.scriptFunction.Supported T.stack.engine)
    (h : createVmEntryThunk T = .ok cfg) (henv : env.blocks = cfg.blocks) (host : Host)
    (regs : Regs) (w : World) : ∃ fired args,
      let w' := w.leave env host T.stack.scriptFunction T.emit.retPointer fired args
      Finishes env host w.calls (.enter regs w.mem) w'.calls w'.mem ∧
      FiresOnNull T.stack.engine T.stack.scriptFunction (stackFramePointer env w.mem) w.mem fired ∧
      PassesThunkSlots host T.stack.engine T.stack.scriptFunction (stackFramePointer env w.mem) w
        fired args := by
  obtain ⟨e, q, hrun, hcode, hret⟩ := createVmEntryThunk_code h
  obtain ⟨ps, hout, hps⟩ := vmEntryThunkBody_runsTo env host hfunc hsupported rfl
    hrun
  obtain rfl : e.out = ps := hout
  obtain ⟨regs', fired, args, hrunsTo, hfires, hpasses⟩ := hps ⟨regs, w⟩
  rw [← henv] at hcode hret
  refine ⟨fired, args, hcode.finishes hrunsTo (.retVoid ?_), hfires, hpasses⟩
  rw [LocalState.step, Progress.toLocalState, hret]

end Asllvm
