import Asllvm.Simulation

/-!
# Whole Calls

What a call of a compiled function starts with, and what a call of a function over integers comes
to.

Every function starts in the same way: its arguments are stored in its parameters, everything else
is cleared, and the first instruction is reached before anything is called. From the lockstep
simulation: a call of a translated function over integers returns exactly if the
AngelScript VM finishes the function, with `Ok` and with the value that the VM has in its value
register. On the way it never comes to anything that LLVM does not define, and calls nothing; and it
never ends if the VM does not.

* `StartsCleared` — the memory a function starts with.
* `LocalState.ComesTo` — an activation comes to a state.
* `Machine.Finishes` — the VM finishes a function.
* `CallsAsVm` — what a call comes to.

## Main results

* `function_starts` — every function starts with its arguments, and with nothing else.
* `integerFunction_callsAsVm` — a call comes to what the VM does.
-/

open StateExcept

namespace Asllvm

/-! ### The start of a function -/

/-- **The memory a function starts with**: the arguments in the parameters, and zeros in all locals
and temporaries and in the two registers. -/
structure StartsCleared (context : FunctionContext) (T : Translation) (env : Env) (mem : Bytes.Mem) :
    Prop where
  arguments : ∃ tys, (scriptCallSlots context.engine context.scriptFunction).mapM toLlvmType = .ok tys ∧
    HoldsArguments T.stack env mem (hiddenArguments context.scriptFunction) 0
      (scriptCallSlots context.engine context.scriptFunction) tys
  storage : ∀ o n, 0 < o → T.stack.InFrame o n →
    Bytes.read mem (T.stack.byteAddress env.layout o) n = 0
  valueRegister : Bytes.read mem (env.layout.address .valueRegister) 8 = 0
  objectRegister : Bytes.read mem (env.layout.address .objectRegister) 8 = 0

/-- **Every function starts cleared**, whatever the memory held: an activation comes to its first
instruction with its arguments in its parameters, and has called nothing by then. -/
theorem function_starts {context : FunctionContext} {bytecode : List BytecodeInstruction}
    {first : BytecodeInstruction} {T : Translation} {env : Env} {s : LocalState}
    (hsupported : context.scriptFunction.Supported context.engine)
    (hreturned : ∃ ty, toLlvmType context.scriptFunction.returnType = .ok ty)
    (hwalked : Walked bytecode) (hfirst : bytecode.head? = some first)
    (htranslate : translateBytecode context bytecode = .ok T) (hact : Activates T env)
    (hs : s.position = (.entry, 0)) : ∃ s', GetsPast env 0 s s' ∧
      itemAt env.blocks s'.position = some (.marker first.offset) ∧
        StartsCleared context T env s'.mem := by
  obtain ⟨s', tys, stored, hpasses, hmarker, hmem, htys, harguments⟩ :=
    exists_started hsupported hreturned hwalked hfirst htranslate hact hs
  refine ⟨s', hpasses, hmarker, ?_⟩
  rw [hmem]
  constructor
  · exact ⟨tys, htys, harguments⟩
  · exact fun o n ho hframe => FrameLayout.cleared_storage hact stored ho hframe
  · exact FrameLayout.cleared_valueRegister hact stored
  · exact FrameLayout.cleared_objectRegister hact stored

/-- The method that takes and returns objects. -/
def objectMethodContext : FunctionContext := ⟨.ofFunctions [], ⟨false, true⟩, objectMethod⟩

theorem translateBytecode_objectMethod : ∃ T, translateBytecode objectMethodContext retBytecode = .ok T ∧
    T.stack.totalSpace = 4 ∧ ∀ entry ∈ T.stack.parameters, -64 < entry.1 ∧ entry.1 ≤ 0 := by
  have htranslates : ∃ T, translateBytecode objectMethodContext retBytecode = .ok T ∧
      (T.stack.totalSpace, T.stack.parameters.map Prod.fst) = (4, [-8, -6, -4, -2, 0]) :=
    exists_ok_of_map (by decide +kernel)
  obtain ⟨T, hT, hstack⟩ := htranslates
  obtain ⟨htotal, hparameters⟩ := Prod.mk.inj hstack
  refine ⟨T, hT, htotal, fun entry hentry => ?_⟩
  have hoffset := hparameters ▸ List.mem_map_of_mem (f := Prod.fst) hentry
  have hrange : ∀ o ∈ ([-8, -6, -4, -2, 0] : List ℤ), -64 < o ∧ o ≤ 0 := by decide
  exact hrange _ hoffset

/-- A method with parameters of several sizes starts with its five arguments, in a memory of ones. -/
theorem function_starts_method : ∃ T env, ∃ s s' : LocalState,
    translateBytecode objectMethodContext retBytecode = .ok T ∧
      env.args = [2048, 4096, 1099511627783, 8192, 345] ∧ s.mem 0 = 1 ∧ GetsPast env 0 s s' ∧
        StartsCleared objectMethodContext T env s'.mem ∧
          T.stack.slotWord env.layout s'.mem (-4) .i64 = 1099511627783 ∧
            T.stack.slotWord env.layout s'.mem (-8) .i32 = 345 := by
  obtain ⟨T, hT, htotal, hparameters⟩ := translateBytecode_objectMethod
  have hact := T.activates_env (by omega) [2048, 4096, 1099511627783, 8192, 345] hparameters
  have hwalked : Walked retBytecode := ⟨rfl, by decide, trivial⟩
  obtain ⟨s', hpasses, -, hstarts⟩ := @function_starts _ _ _ T _
    ⟨(.entry, 0), fun _ => 0, fun _ => 1, none⟩ (objectMethod_supported []) ⟨.ptr (.struct 2), rfl⟩
    hwalked rfl hT hact rfl
  obtain ⟨tys, htys, harguments⟩ := hstarts.arguments
  obtain rfl : [.ptr (.struct 2), .ptr (.struct 1), .i64, .ptr (.struct 2), .i32] = tys :=
    Except.ok.inj htys
  refine ⟨T, _, _, s', hT, rfl, rfl, hpasses, hstarts, ?_, ?_⟩
  · obtain ⟨-, hword⟩ := harguments 2 (.primitive .ttInt64) .i64 rfl rfl
    exact hword
  · obtain ⟨-, hword⟩ := harguments 4 (.primitive .ttInt) .i32 rfl rfl
    exact hword

/-! ### What a call comes to -/

/-- An activation **comes to a state**, without leaving the function on the way. -/
def LocalState.ComesTo (env : Env) (s s' : LocalState) : Prop := ∃ n, GetsPast env n s s'

/-- The VM **finishes** a function: after some instructions it is at a `RET`. -/
def Machine.Finishes (bytecode : List BytecodeInstruction) (m m' : Machine) : Prop :=
  ∃ n, m.run bytecode n = some m' ∧ m'.step bytecode = .finished

/-- **A call comes to what the VM does**: it returns once the VM finishes, with the value in the value
register of the VM, and the only state in which an activation stops is the one in which it does. -/
structure CallsAsVm (context : FunctionContext) (bytecode : List BytecodeInstruction) (env : Env)
    (m : Machine) (s : LocalState) : Prop where
  returns : ∀ m', m.Finishes bytecode m' → ∃ u, s.ComesTo env u ∧ u.step env = .ret VmState.Ok.word ∧
    ∀ ty, ReturnsInteger context.scriptFunction ty →
      Bytes.read u.mem (env.args.getD 0 0).toNat ty.storeSize = ty.truncate m'.valueRegister
  stops : ∀ u, s.ComesTo env u → u.goOn env = none →
    u.step env = .ret VmState.Ok.word ∧ ∃ m', m.Finishes bytecode m'

section Calls

variable {context : FunctionContext} {bytecode : List BytecodeInstruction} {T : Translation}
  {env : Env} {m m' : Machine} {s : LocalState}

/-- What has been stored through the first argument is there. -/
theorem ReturnsAsVm.read (h : ReturnsAsVm context env m s) : ∃ u, GetsPast env 1 s u ∧
    u.step env = .ret VmState.Ok.word ∧ ∀ ty, ReturnsInteger context.scriptFunction ty →
      Bytes.read u.mem (env.args.getD 0 0).toNat ty.storeSize = ty.truncate m.valueRegister := by
  obtain ⟨u, hpasses, hret, -, hmem⟩ := h
  refine ⟨u, hpasses, hret, fun ty hty => ?_⟩
  rw [hmem ty hty, Bytes.read_write_same]
  obtain ⟨-, -, -, hvariable⟩ := hty
  rcases hvariable with rfl | rfl
  · exact congrArg (BitVec.setWidth 64) (Ty.setWidth_truncate .i32 m.valueRegister)
  · exact congrArg (BitVec.setWidth 64) (Ty.setWidth_truncate .i64 m.valueRegister)

/-- Where the VM stops, it finishes, if LLVM defines the operations. -/
theorem Corresponds.finished_of_stops (h : IntegerFunction context bytecode)
    (htranslate : translateBytecode context bytecode = .ok T) (hact : Activates T env)
    (hcorresponds : Corresponds context bytecode env m s) (hdefined : m.DefinedAt bytecode)
    (hstop : m.goOn bytecode = none) : m.step bytecode = .finished ∧ ReturnsAsVm context env m s := by
  rcases hcorresponds.step h htranslate hact hdefined with ⟨m', -, hnext, -⟩ | hfinished
  · rw [Machine.goOn, hnext] at hstop
    exact absurd hstop (Option.some_ne_none m')
  · exact hfinished

/-- **What a call of a function over integers comes to**, where LLVM defines the operations of the
instructions that the VM comes to. -/
theorem integerFunction_callsAsVm (h : IntegerFunction context bytecode)
    (htranslate : translateBytecode context bytecode = .ok T) (hact : Activates T env)
    (hs : s.position = (.entry, 0))
    (hdefined : ∀ n m, (Machine.entry context env.args).run bytecode n = some m →
      m.DefinedAt bytecode) :
    CallsAsVm context bytecode env (Machine.entry context env.args) s := by
  obtain ⟨s₁, hstart, hcorresponds⟩ := exists_corresponds_entry h htranslate hact hs
  have hsimulation := simulation h htranslate hact
  -- where the VM stops, the activation returns
  have hreturn {n : ℕ} {m' : Machine} (hrun : (Machine.entry context env.args).run bytecode n = some m')
      (hstop : m'.goOn bytecode = none) : m'.step bytecode = .finished ∧ ∃ u, s.ComesTo env u ∧
        u.step env = .ret VmState.Ok.word ∧ ∀ ty, ReturnsInteger context.scriptFunction ty →
          Bytes.read u.mem (env.args.getD 0 0).toNat ty.storeSize = ty.truncate m'.valueRegister := by
    obtain ⟨s', hpasses, hrelated⟩ :=
      hsimulation.forward hstart hcorresponds (fun k _ => hdefined k) hrun
    obtain ⟨hfinished, hreturns⟩ :=
      hrelated.finished_of_stops h htranslate hact (hdefined n m' hrun) hstop
    obtain ⟨u, hlast, hret, hvalue⟩ := hreturns.read
    exact ⟨hfinished, u, ⟨n + 1, hpasses.trans hlast⟩, hret, hvalue⟩
  constructor
  · rintro m' ⟨n, hrun, hfinished⟩
    have hstop : m'.goOn bytecode = none := by rw [Machine.goOn, hfinished]
    exact (hreturn hrun hstop).2
  · rintro u ⟨n, hpasses⟩ hstuck
    obtain ⟨k, m', hrun, hstop⟩ := hsimulation.exists_last hstart hcorresponds hdefined hpasses hstuck
    obtain ⟨hfinished, v, ⟨l, hv⟩, hret, -⟩ := hreturn hrun hstop
    obtain rfl := hpasses.stop_unique hstuck hv (LocalState.goOn_of_ret hret)
    exact ⟨hret, m', k, hrun, hfinished⟩

/-- A call that counts the digits of 345, in a memory of ones, returns three. -/
theorem integerFunction_callsAsVm_digits : ∃ T env s,
    translateBytecode digitsContext digitsBytecode = .ok T ∧ Activates T env ∧ env.args = [512, 345] ∧
      CallsAsVm digitsContext digitsBytecode env (Machine.entry digitsContext env.args) s ∧
        ∃ u, s.ComesTo env u ∧ u.step env = .ret VmState.Ok.word ∧ Bytes.read u.mem 512 4 = 3 := by
  obtain ⟨T, hT, hstack⟩ := translateBytecode_digits
  obtain ⟨hparameters, htotal⟩ := Prod.mk.inj hstack
  have hact := T.activates_env (by omega) [512, 345] (by rw [hparameters]; decide)
  have hcalls := @integerFunction_callsAsVm _ _ T _ ⟨(.entry, 0), fun _ => 0, fun _ => 1, none⟩
    digits_integerFunction hT hact rfl (digits_defined _)
  obtain ⟨m, hrun, hvalue, hfinished⟩ := digits_finishes
  obtain ⟨u, hcomes, hret, hreturned⟩ := hcalls.returns m ⟨19, hrun, hfinished⟩
  have hthree := hreturned .i32 ⟨⟨rfl, by decide, rfl, by decide⟩, rfl, rfl, .inl rfl⟩
  rw [hvalue] at hthree
  exact ⟨T, _, _, hT, hact, rfl, hcalls, u, hcomes, hret, hthree⟩

end Calls

end Asllvm
