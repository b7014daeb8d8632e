import Asllvm.Remaining

/-!
# Chains of Calls

Translated functions calling one another. A `Chain` is the stack of their activations, the innermost
first, together with what the active context knows of the native call that is going on. What lies
outside, the runtime and the host, may answer a call with any value and leave any memory behind; a
call of a script function goes on in the function translated at the address that is called.

* `Program`, `Frame`, `Chain` — translated functions, and the activations of some of them.
* `Chain.Step` — one step of the innermost activation, or a call or return of a script function.
* `Frame.Place` — the code a frame is in: what it has run of it, and what lies ahead.

## Main results

* `Frame.Inside.next`, `Frame.Inside.call` — what a step does to a frame inside its code.
* `Chain.Reaches.fulfils` — what the steps of the innermost activation keep holds in every chain that
  is reached, while every other activation waits for the script function it has called.
-/

open StateExcept

namespace Asllvm

/-- A translated function. -/
structure Implementation where
  context : FunctionContext
  bytecode : List BytecodeInstruction
  translation : Translation
  walked : Walked bytecode
  translated : translateBytecode context bytecode = .ok translation

/-- The blocks of a translated function. -/
abbrev Implementation.blocks (impl : Implementation) : BlockId → List Item :=
  impl.translation.cfg.blocks

/-- A **program** that has been loaded: where everything lies, and which function was translated to
the code at an address. -/
structure Program where
  symbols : Symbols
  implementationAt : Word → Option Implementation

/-- An activation of a translated function of a program. -/
structure Frame (program : Program) where
  impl : Implementation
  env : Env
  state : LocalState
  activates : Activates impl.translation env
  symbols : env.symbols = program.symbols

namespace Frame

variable {program : Program}

/-- The activation in another state. -/
def goto (frame : Frame program) (state : LocalState) : Frame program := { frame with state := state }

@[simp] theorem goto_impl (frame : Frame program) (s : LocalState) :
    (frame.goto s).impl = frame.impl := rfl
@[simp] theorem goto_env (frame : Frame program) (s : LocalState) :
    (frame.goto s).env = frame.env := rfl
@[simp] theorem goto_state (frame : Frame program) (s : LocalState) :
    (frame.goto s).state = s := rfl

/-- What the next step of the activation comes to. -/
def step (frame : Frame program) : Outcome := frame.state.step frame.env

/-- The activation starts: none of its instructions has begun. -/
def Starts (frame : Frame program) : Prop :=
  frame.state.position = (.entry, 0) ∧ frame.state.current = none

end Frame

/-- A **chain** of activations, the innermost first, and `m_callingSystemFunction` of the active
context. -/
structure Chain (program : Program) where
  frames : List (Frame program)
  calling : Word

namespace Chain

variable {program : Program}

/-- A chain of one activation that starts. -/
def Starts (chain : Chain program) : Prop := ∃ frame, chain.frames = [frame] ∧ frame.Starts

/-- One step of a chain. -/
inductive Step : Chain program → Chain program → Prop
  /-- Inside the innermost activation. -/
  | next {frame : Frame program} {rest : List (Frame program)} {calling : Word} {s : LocalState} :
      frame.step = .next s → Step ⟨frame :: rest, calling⟩ ⟨frame.goto s :: rest, calling⟩
  /-- `prepare_system_call` stores its argument in the context, and does nothing else. -/
  | prepare {frame : Frame program} {rest : List (Frame program)} {calling : Word}
      {dst : Option ℕ} {args : List Value} {value : Word} :
      frame.step = .call dst (.runtime .prepareSystemCall) args →
      Step ⟨frame :: rest, calling⟩ ⟨frame.goto (frame.state.resume dst value frame.state.mem) :: rest,
        (args.map (·.eval frame.env frame.state.regs)).headD 0⟩
  /-- Another function of the runtime, which may do anything outside the frames. -/
  | runtime {frame : Frame program} {rest : List (Frame program)} {calling calling' : Word}
      {dst : Option ℕ} {f : RuntimeFunction} {args : List Value} {value : Word} {mem : Bytes.Mem} :
      frame.step = .call dst (.runtime f) args → f ≠ .prepareSystemCall →
      Step ⟨frame :: rest, calling⟩ ⟨frame.goto (frame.state.resume dst value mem) :: rest, calling'⟩
  /-- A native function. -/
  | native {frame : Frame program} {rest : List (Frame program)} {calling calling' : Word}
      {dst : Option ℕ} {target : Operand} {args : List Value} {value : Word} {mem : Bytes.Mem} :
      frame.step = .call dst (.system target) args →
      Step ⟨frame :: rest, calling⟩ ⟨frame.goto (frame.state.resume dst value mem) :: rest, calling'⟩
  /-- The implementation at an address is called: its activation starts with the memory of the
  caller. -/
  | enter {frame callee : Frame program} {rest : List (Frame program)} {calling : Word}
      {dst : Option ℕ} {target : Operand} {args : List Value} :
      frame.step = .call dst (.script target) args →
      program.implementationAt (target.eval frame.env frame.state.regs) = some callee.impl →
      callee.env.args = args.map (·.eval frame.env frame.state.regs) →
      callee.state.mem = frame.state.mem → callee.Starts →
      Step ⟨frame :: rest, calling⟩ ⟨callee :: frame :: rest, calling⟩
  /-- The innermost activation returns to its caller. -/
  | leave {frame caller : Frame program} {rest : List (Frame program)} {calling : Word}
      {value : Word} {dst : Option ℕ} {target : Operand} {args : List Value} :
      frame.step = .ret value → caller.step = .call dst (.script target) args →
      Step ⟨frame :: caller :: rest, calling⟩
        ⟨caller.goto (caller.state.resume dst value frame.state.mem) :: rest, calling⟩

/-- An execution gets from one chain to another. -/
abbrev Reaches : Chain program → Chain program → Prop := Relation.ReflTransGen Step

/-- **Steps inside the innermost activation** are steps of the chain. -/
theorem Reaches.of_steps {frame : Frame program} (rest : List (Frame program)) (calling : Word)
    {n : ℕ} {s : LocalState} (h : frame.state.steps frame.env n = some s) :
    Reaches ⟨frame :: rest, calling⟩ ⟨frame.goto s :: rest, calling⟩ := by
  induction n generalizing frame with
  | zero =>
      obtain rfl : frame.state = s := Option.some.inj h
      exact .refl
  | succ n ih =>
      rw [LocalState.steps] at h
      cases hstep : frame.state.step frame.env with
      | next s' =>
          rw [hstep] at h
          have hrest : Reaches ⟨frame.goto s' :: rest, calling⟩ ⟨frame.goto s :: rest, calling⟩ := ih h
          exact .head (.next hstep) hrest
      | call | ret | retVoid | undefined =>
          rw [hstep] at h
          exact absurd h (Option.some_ne_none _).symm

end Chain

/-! ### Where a frame is -/

/-- The code a frame can be in, while the instruction at `current` runs, and where it ends: the local
structures, the pieces of that instruction, or none. -/
inductive Implementation.Code (impl : Implementation) (current : Option ℕ) :
    List Piece → (Position → Prop) → Prop
  | rest : impl.Code current [] (NoReturn impl.blocks)
  | structures {s₀ : EmitState} :
      Runs (emitAllocateLocalStructures impl.context) BuilderState.new.emit impl.translation.stack s₀ →
      impl.Code current s₀.out (NoReturn impl.blocks)
  | instruction {ins : BytecodeInstruction} {sp : ℤ} {ps : List Piece} {p q : Position} :
      CodeOf impl.context impl.translation impl.bytecode ins sp ps p q → current = some ins.offset →
      impl.Code current ps (ReturnsOk impl.blocks ins.bc)

namespace Frame

variable {program : Program} {frame : Frame program} {done ps : List Piece}

/-- A frame is **inside** its code: it has run some pieces of it, and others lie ahead. -/
def Inside (frame : Frame program) (done ps : List Piece) : Prop :=
  ∃ E, frame.impl.Code frame.state.current (done ++ ps) E ∧
    RemainsTo frame.env.blocks E frame.state.position ps

/-- The **place** of a frame: it is inside its code, or it has left it through a check that fired. -/
inductive Place (frame : Frame program) : List Piece → List Piece → Prop
  | inside {done ps : List Piece} : frame.Inside done ps → Place frame done ps
  | left {n : ℕ} {state : Operand} :
      frame.state.position = (.setVmException n, 0) →
      itemAt frame.env.blocks frame.state.position = some (.term (.ret state)) → Place frame [] []

/-- At the start, the local structures lie ahead. -/
theorem Starts.inside (h : frame.Starts) : ∃ ps, Inside frame [] ps := by
  obtain ⟨s₀, hlocal, hremains⟩ :=
    translateBytecode_entry_remainsTo frame.impl.walked frame.impl.translated
  refine ⟨s₀.out, _, .structures hlocal, ?_⟩
  rw [h.1, frame.activates.blocks]
  exact hremains

/-- Behind a marker, the pieces of its instruction lie ahead. -/
theorem inside_of_marker {o : ℕ} (hopen : OpenAt frame.env.blocks frame.state.position)
    (h : itemAt frame.env.blocks frame.state.position = some (.marker o)) :
    ∃ ps, Inside (frame.goto { frame.state with
      position := frame.state.position.next, current := some o }) [] ps := by
  rw [frame.activates.blocks] at hopen h
  obtain ⟨ins, sp, ps, q, rfl, hcode⟩ :=
    exists_codeOf_of_marker frame.impl.walked frame.impl.translated h
  have hremains := hcode.remainsTo frame.impl.walked frame.impl.translated hopen
  refine ⟨ps, _, .instruction hcode rfl, ?_⟩
  rw [goto_env, frame.activates.blocks]
  exact hremains

theorem step_of_ret {state : Operand}
    (h : itemAt frame.env.blocks frame.state.position = some (.term (.ret state))) :
    frame.step = .ret (state.eval frame.env frame.state.regs) := by
  rw [step, LocalState.step, h]

/-- **A step inside the code** of a frame: it uses up the first of the pieces ahead, or that is a
check, and fires, or it comes to code of which it has run nothing yet. -/
theorem Inside.next {s : LocalState} (h : Inside frame done ps) (hstep : frame.step = .next s) :
    (∃ piece ps', ps = piece :: ps' ∧ Advances frame.env frame.state ps s ps' ∧
      Inside (frame.goto s) (done ++ [piece]) ps') ∨
    (∃ n cond state ps', ps = .check cond state :: ps' ∧
      (cond.eval frame.env frame.state.regs).getLsbD 0 = true ∧
      itemAt frame.env.blocks (.setVmException n, 0) = some (.term (.ret state)) ∧
      s = { frame.state with position := (.setVmException n, 0) }) ∨
    ∃ ps', Inside (frame.goto s) [] ps' := by
  obtain ⟨E, hcode, hremains⟩ := h
  rcases RemainsTo.next hremains hstep with ⟨piece, ps', rfl, hadvances, hremains'⟩ |
    ⟨n, cond, state, ps', rfl, -, hfires, hitem, rfl⟩ | ⟨rfl, -, hopen, hitem⟩ | ⟨rfl, o, hitem, rfl⟩
  · have hcurrent : s.current = frame.state.current := by
      cases hadvances <;> rfl
    refine .inl ⟨piece, ps', rfl, hadvances, E, ?_, hremains'⟩
    rw [goto_state, goto_impl, hcurrent, List.append_assoc]
    exact hcode
  · exact .inr (.inl ⟨n, cond, state, ps', rfl, hfires, hitem, rfl⟩)
  · have hatRest : AtRest frame.env.blocks s.position := hitem.imp_right Or.inl
    refine .inr (.inr ⟨[], _, .rest, hopen, _, .nil _, fun _ => ⟨hatRest, ?_⟩⟩)
    rw [goto_impl, Implementation.blocks, ← frame.activates.blocks]
    exact noReturn_of_atMarker hitem
  · exact .inr (.inr (inside_of_marker hremains.1 hitem))

/-- **A call of a frame** is the first of the pieces ahead, and is run when it has been answered. -/
theorem Inside.call {dst : Option ℕ} {callee : Callee} {args : List Value}
    (h : Inside frame done ps) (hstep : frame.step = .call dst callee args) :
    ∃ ps', ps = .instr (.call dst callee args) :: ps' ∧ ∀ value mem,
      Inside (frame.goto (frame.state.resume dst value mem))
        (done ++ [.instr (.call dst callee args)]) ps' := by
  obtain ⟨E, hcode, hremains⟩ := h
  obtain ⟨ps', rfl, hremains'⟩ := hremains.call hstep
  refine ⟨ps', rfl, fun value mem => ⟨E, ?_, hremains'⟩⟩
  rw [List.append_assoc]
  exact hcode

/-- A frame that makes a call is inside its code. -/
theorem Place.inside_of_call {dst : Option ℕ} {callee : Callee} {args : List Value}
    (h : Place frame done ps) (hstep : frame.step = .call dst callee args) :
    Inside frame done ps := by
  cases h with
  | inside hinside => exact hinside
  | left hposition hitem =>
      rw [step_of_ret hitem] at hstep
      cases hstep

/-- A frame that has called a script function, and waits for it. -/
def Waits (frame : Frame program) : Prop := ∃ done ps dst target args,
  Inside frame done (.instr (.call dst (.script target) args) :: ps) ∧
    frame.step = .call dst (.script target) args

end Frame

/-! ### Runs of a chain -/

/-- An **invariant of the innermost activation**, and of `m_callingSystemFunction`: it holds at the
start, every step keeps it, and an activation whose callee returns has it again. -/
structure Frame.Invariant {program : Program} (I : Frame program → Word → Prop) : Prop where
  starts : ∀ {frame : Frame program} {calling : Word}, frame.Starts → I frame calling
  inside : ∀ {frame : Frame program} {calling : Word} {dst : Option ℕ} {callee : Callee}
    {args : List Value}, I frame calling → frame.step = .call dst callee args →
    ∃ done ps, frame.Inside done ps
  next : ∀ {frame : Frame program} {calling : Word} {s : LocalState}, I frame calling →
    frame.step = .next s → I (frame.goto s) calling
  answer : ∀ {frame : Frame program} {calling calling' : Word} {dst : Option ℕ} {callee : Callee}
    {args : List Value} (value : Word) (mem : Bytes.Mem), I frame calling →
    frame.step = .call dst callee args → (∀ target, callee ≠ .script target) →
    (callee = .runtime .prepareSystemCall →
      calling' = (args.map (·.eval frame.env frame.state.regs)).headD 0) →
    I (frame.goto (frame.state.resume dst value mem)) calling'
  leave : ∀ {frame caller : Frame program} {calling value : Word} {dst : Option ℕ}
    {target : Operand} {args : List Value}, I frame calling → frame.step = .ret value →
    caller.Waits → caller.step = .call dst (.script target) args →
    I (caller.goto (caller.state.resume dst value frame.state.mem)) calling

namespace Chain

variable {program : Program} {chain chain' : Chain program} {I : Frame program → Word → Prop}

/-- The innermost activation fulfils `I`, and every other one waits. -/
def Fulfils (I : Frame program → Word → Prop) (chain : Chain program) : Prop :=
  ∃ frame rest, chain.frames = frame :: rest ∧ I frame chain.calling ∧ ∀ waiting ∈ rest, waiting.Waits

/-- **One step** keeps an invariant. -/
theorem Fulfils.step (hI : Frame.Invariant I) (h : chain.Fulfils I) (hstep : chain.Step chain') :
    chain'.Fulfils I := by
  obtain ⟨frame, rest, hframes, hframe, hwaits⟩ := h
  cases hstep with
  | next hnext =>
      obtain ⟨rfl, rfl⟩ := List.cons.inj hframes
      exact ⟨_, _, rfl, hI.next hframe hnext, hwaits⟩
  | prepare hcall =>
      obtain ⟨rfl, rfl⟩ := List.cons.inj hframes
      exact ⟨_, _, rfl, hI.answer _ _ hframe hcall (fun _ => Callee.noConfusion) fun _ => rfl, hwaits⟩
  | runtime hcall hne =>
      obtain ⟨rfl, rfl⟩ := List.cons.inj hframes
      exact ⟨_, _, rfl, hI.answer _ _ hframe hcall (fun _ => Callee.noConfusion)
        fun heq => absurd (Callee.runtime.inj heq) hne, hwaits⟩
  | native hcall =>
      obtain ⟨rfl, rfl⟩ := List.cons.inj hframes
      exact ⟨_, _, rfl, hI.answer _ _ hframe hcall (fun _ => Callee.noConfusion)
        fun heq => Callee.noConfusion heq, hwaits⟩
  | enter hcall _ _ _ hstarts =>
      obtain ⟨rfl, rfl⟩ := List.cons.inj hframes
      obtain ⟨done, ps, hinside⟩ := hI.inside hframe hcall
      obtain ⟨ps', rfl, -⟩ := hinside.call hcall
      refine ⟨_, _, rfl, hI.starts hstarts, fun waiting hwaiting => ?_⟩
      rcases List.mem_cons.mp hwaiting with rfl | hwaiting
      · exact ⟨done, ps', _, _, _, hinside, hcall⟩
      · exact hwaits waiting hwaiting
  | leave hret hcall =>
      obtain ⟨rfl, rfl⟩ := List.cons.inj hframes
      exact ⟨_, _, rfl, hI.leave hframe hret (hwaits _ List.mem_cons_self) hcall,
        fun waiting hwaiting => hwaits waiting (List.mem_cons_of_mem _ hwaiting)⟩

/-- **Every chain that is reached** fulfils an invariant. -/
theorem Reaches.fulfils (hI : Frame.Invariant I) (h : chain.Reaches chain') (hstarts : chain.Starts) :
    chain'.Fulfils I := by
  induction h with
  | refl =>
      obtain ⟨frame, hframes, hframe⟩ := hstarts
      exact ⟨frame, [], hframes, hI.starts hframe, fun _ h => absurd h List.not_mem_nil⟩
  | tail _ hstep ih => exact ih.step hI hstep

end Chain

/-! ### Activations that start -/

namespace Frame

variable {program : Program} {frame : Frame program}

/-- The items of a block whose contents are known. -/
theorem itemAt_of_blocks {b : BlockId} {items : List Item} {item : Item} {k : ℕ}
    (hblock : frame.impl.blocks b = items) (hk : items[k]? = some item) :
    itemAt frame.env.blocks (b, k) = some item := by
  rw [itemAt, frame.activates.blocks, ← Implementation.blocks, hblock, hk]

/-- **An activation of a translated function** with the given arguments and memory, and its frame
above an address. -/
theorem exists_starts (program : Program) (impl : Implementation)
    (htotal : impl.translation.stack.totalSpace ≤ 2 ^ 32)
    (hparameters : ∀ entry ∈ impl.translation.stack.parameters, -64 < entry.1 ∧ entry.1 ≤ 0)
    {base : ℕ} (hbase : base ≤ 2 ^ 63) (args : List Word) (mem : Bytes.Mem) :
    ∃ frame : Frame program, frame.impl = impl ∧
      frame.env = impl.translation.envAt htotal base hbase args program.symbols ∧
      frame.state.mem = mem ∧ frame.Starts :=
  ⟨{
    impl := impl
    env := impl.translation.envAt htotal base hbase args program.symbols
    state := ⟨(.entry, 0), fun _ => 0, mem, none⟩
    activates := impl.translation.activates_envAt htotal hbase args program.symbols hparameters
    symbols := rfl }, rfl, rfl, rfl, rfl, rfl⟩

/-- **The prologue is run**, whatever waits for the activation. -/
theorem Starts.reaches_marker (h : frame.Starts) {o bytes : ℕ}
    (hbytes : 4 * frame.impl.translation.stack.totalSpace.toNat = bytes)
    (hinitial : prologue bytes ++ [.marker o] <+: frame.impl.blocks .entry)
    (rest : List (Frame program)) (calling : Word) : ∃ mem,
      Chain.Reaches ⟨frame :: rest, calling⟩
        ⟨frame.goto ⟨(.entry, 7), frame.state.regs, mem, some o⟩ :: rest, calling⟩ := by
  have hsize : frame.env.layout.size .storage = bytes := frame.activates.storage.trans hbytes
  obtain ⟨mem, hsteps⟩ := LocalState.steps_prologue (s := frame.state) frame.activates hsize
    ((List.prefix_append _ _).trans hinitial) h.1
  have hitem : itemAt frame.env.blocks (.entry, 6) = some (.marker o) := by
    rw [frame.activates.blocks]
    exact itemAt_of_prefix hinitial rfl
  have hreaches := Chain.Reaches.of_steps rest calling hsteps
  rw [h.2] at hreaches
  exact ⟨_, hreaches.tail (.next (LocalState.step_marker hitem))⟩

end Frame

/-- **What holds of the functions of a program** holds of every activation of a chain. -/
theorem Chain.Reaches.impls {program : Program} {chain chain' : Chain program}
    {P : Implementation → Prop} (hreaches : chain.Reaches chain')
    (hprogram : ∀ address impl, program.implementationAt address = some impl → P impl)
    (h : ∀ frame ∈ chain.frames, P frame.impl) : ∀ frame ∈ chain'.frames, P frame.impl := by
  induction hreaches with
  | refl => exact h
  | tail _ hstep ih =>
      cases hstep with
      | next _ | prepare _ | runtime _ _ | native _ =>
          exact List.forall_mem_cons.mpr ⟨(List.forall_mem_cons.mp ih).1,
            (List.forall_mem_cons.mp ih).2⟩
      | enter _ hcallee _ _ _ => exact List.forall_mem_cons.mpr ⟨hprogram _ _ hcallee, ih⟩
      | leave _ _ =>
          obtain ⟨-, hrest⟩ := List.forall_mem_cons.mp ih
          exact List.forall_mem_cons.mpr ⟨(List.forall_mem_cons.mp hrest).1,
            (List.forall_mem_cons.mp hrest).2⟩

/-! ### A C function, called by a script function that another one calls -/

/-- `void f()`, a C function. -/
def nativeProcedure : ScriptFunction :=
  { ScriptFunction.free 1 (.primitive .ttVoid) [] 0 with
    funcType := .asFUNC_SYSTEM
    sysFuncIntf := ⟨.ICC_CDECL, false, 0⟩ }

/-- `void g()`, which calls `f`, and `void h()`, which calls `g`, by their ids. -/
def procedureContext (id : ℤ) : FunctionContext where
  engine := .ofFunctions [nativeProcedure, .free 2 (.primitive .ttVoid) [] 4]
  config := ⟨false, true⟩
  scriptFunction := .free id (.primitive .ttVoid) [] 4

/-- The bytecode of `g`. -/
def callsNativeBytecode : List BytecodeInstruction :=
  [callSysAt 1 0, retAt 2]

/-- The bytecode of `h`. -/
def callsScriptBytecode : List BytecodeInstruction :=
  [callAt 2 0, retAt 2]

/-- What the code of `g` begins with. -/
def callsNativeEntry : List Item := prologue 32 ++ [.marker 0] ++ [
  .instr (.call none (.runtime .prepareSystemCall) [⟨.systemFunction 1, .pvoid⟩]),
  .instr (.call none (.system (.systemFunction 1)) []),
  .instr (.call (some 0) (.runtime .checkExecutionStatus) []),
  .instr (.icmp 1 .ne .vmState (.reg 0) (.const 0)),
  .term (.condBr (.reg 1) (.setVmException 0) (.doNotSetVmException 0))]

/-- What the code of `h` begins with. -/
def callsScriptEntry : List Item := prologue 32 ++ [.marker 0] ++ [
  .instr (.call (some 0) (.script (.scriptFunction 2)) []),
  .instr (.icmp 1 .ne .vmState (.reg 0) (.const 0)),
  .term (.condBr (.reg 1) (.setVmException 0) (.doNotSetVmException 0))]

theorem translateBytecode_callsNative :
    ∃ T, translateBytecode (procedureContext 2) callsNativeBytecode = .ok T ∧
      (T.stack.parameters, T.stack.totalSpace, T.cfg.blocks .entry,
        T.cfg.blocks (.setVmException 0)) = ([], 8, callsNativeEntry, [.term (.ret (.const 1))]) :=
  exists_ok_of_map (by decide +kernel)

theorem translateBytecode_callsScript :
    ∃ T, translateBytecode (procedureContext 3) callsScriptBytecode = .ok T ∧
      (T.stack.parameters, T.stack.totalSpace, T.cfg.blocks .entry) = ([], 8, callsScriptEntry) :=
  exists_ok_of_map (by decide +kernel)

/-- `g` is translated. -/
theorem exists_callsNative : ∃ impl : Implementation, impl.context = procedureContext 2 ∧
    impl.bytecode = callsNativeBytecode ∧ impl.translation.stack.parameters = [] ∧
    impl.translation.stack.totalSpace = 8 ∧ impl.blocks .entry = callsNativeEntry ∧
    impl.blocks (.setVmException 0) = [.term (.ret (.const 1))] := by
  obtain ⟨T, hT, hentry⟩ := translateBytecode_callsNative
  simp only [Prod.mk.injEq] at hentry
  have hwalked : Walked callsNativeBytecode := by
    simp [callsNativeBytecode, callSysAt, retAt, WalkedFrom, BytecodeInstruction.next]
  exact ⟨⟨_, _, T, hwalked, hT⟩, rfl, rfl, hentry⟩

/-- `h` is translated. -/
theorem exists_callsScript : ∃ impl : Implementation, impl.context = procedureContext 3 ∧
    impl.bytecode = callsScriptBytecode ∧ impl.translation.stack.parameters = [] ∧
    impl.translation.stack.totalSpace = 8 ∧ impl.blocks .entry = callsScriptEntry := by
  obtain ⟨T, hT, hentry⟩ := translateBytecode_callsScript
  simp only [Prod.mk.injEq] at hentry
  have hwalked : Walked callsScriptBytecode := by
    simp [callsScriptBytecode, callAt, retAt, WalkedFrom, BytecodeInstruction.next]
  exact ⟨⟨_, _, T, hwalked, hT⟩, rfl, rfl, hentry⟩

/-- **`g` comes to its call of `f`**, whatever waits for it, and has announced it then. -/
theorem Frame.Starts.reaches_native {program : Program} {frame : Frame program} (h : frame.Starts)
    (htotal : frame.impl.translation.stack.totalSpace = 8)
    (hentry : frame.impl.blocks .entry = callsNativeEntry) (rest : List (Frame program))
    (calling : Word) : ∃ mem,
      Chain.Reaches ⟨frame :: rest, calling⟩
        ⟨frame.goto ⟨(.entry, 8), frame.state.regs, mem, some 0⟩ :: rest,
          program.symbols.systemFunction 1⟩ ∧
      (frame.goto ⟨(.entry, 8), frame.state.regs, mem, some 0⟩).step =
        .call none (.system (.systemFunction 1)) [] := by
  obtain ⟨mem, hreaches⟩ := h.reaches_marker (by rw [htotal])
    (by rw [hentry]; exact List.prefix_append _ _) rest calling
  have hprepare : (frame.goto ⟨(.entry, 7), frame.state.regs, mem, some 0⟩).step =
      .call none (.runtime .prepareSystemCall) [⟨.systemFunction 1, .pvoid⟩] :=
    LocalState.step_call (itemAt_of_blocks hentry rfl)
  have hcalling : (List.map (·.eval frame.env frame.state.regs)
      [(⟨.systemFunction 1, .pvoid⟩ : Value)]).headD 0 = program.symbols.systemFunction 1 := by
    rw [List.map_cons, List.headD_cons, Value.eval, Ty.truncate_ptr, Operand.eval, frame.symbols]
  refine ⟨mem, hreaches.tail ?_, LocalState.step_call (itemAt_of_blocks hentry rfl)⟩
  rw [← hcalling]
  exact @Chain.Step.prepare _ _ rest calling _ _ 0 hprepare

/-- A process in which the descriptors of native functions lie at `1`, and their code at `2`. -/
def apartProgram : Program where
  symbols := ⟨fun _ => 1, fun _ => 0, fun _ => 2, fun _ => 0⟩
  implementationAt _ := none

/-- A process in which the descriptors of native functions and their code lie at `2`, and a translated
function at `3`. -/
def nestedProgram (impl : Implementation) : Program where
  symbols := ⟨fun _ => 2, fun _ => 3, fun _ => 2, fun _ => 0⟩
  implementationAt address := if address = 3 then some impl else none

/-- **`h` calls `g`, which comes to its call of `f`**, while `h` waits below it. -/
theorem exists_chain_nested : ∃ (impl : Implementation)
    (first caller callee : Frame (nestedProgram impl)),
    impl.context = procedureContext 2 ∧ impl.blocks .entry = callsNativeEntry ∧
    impl.blocks (.setVmException 0) = [.term (.ret (.const 1))] ∧
    first.Starts ∧ first.impl.context = procedureContext 3 ∧
    Chain.Reaches ⟨[first], 0⟩ ⟨[callee, caller], 2⟩ ∧
    caller.env.layout.Below callee.env.layout ∧ caller.impl = first.impl ∧
    caller.step = .call (some 0) (.script (.scriptFunction 2)) [] ∧
    callee.impl = impl ∧ callee.state.position = (.entry, 8) ∧
    callee.step = .call none (.system (.systemFunction 1)) [] := by
  obtain ⟨impl, hcontext, -, hparameters, htotal, hentry, hexception⟩ := exists_callsNative
  obtain ⟨outer, hcontext', -, hparameters', htotal', hentry'⟩ := exists_callsScript
  obtain ⟨first, rfl, henv, -, hstarts⟩ := Frame.exists_starts (nestedProgram impl) outer (by omega)
    (by rw [hparameters']; decide) (Nat.zero_le _) [] fun _ => 0
  obtain ⟨mem, hmarker⟩ := hstarts.reaches_marker (by rw [htotal'])
    (by rw [hentry']; exact List.prefix_append _ _) [] 0
  let caller : Frame (nestedProgram impl) :=
    first.goto ⟨(.entry, 7), first.state.regs, mem, some 0⟩
  have hcall : caller.step = .call (some 0) (.script (.scriptFunction 2)) [] :=
    LocalState.step_call (@Frame.itemAt_of_blocks _ first _ _ _ _ hentry' rfl)
  obtain ⟨entered, himpl, henv', hmem, hentered⟩ := Frame.exists_starts (nestedProgram impl) impl
    (by omega) (by rw [hparameters]; decide) (by decide : 2 ^ 35 ≤ 2 ^ 63) [] mem
  have hbelow : caller.env.layout.Below entered.env.layout := by
    rw [henv', Frame.goto_env, henv]
    exact Translation.envAt_below _ _ le_rfl _
  have hat : (nestedProgram impl).implementationAt
      ((Operand.scriptFunction 2).eval caller.env caller.state.regs) = some entered.impl := by
    rw [Operand.eval, caller.symbols, himpl]
    rfl
  have henter : Chain.Step ⟨[caller], 0⟩ ⟨[entered, caller], 0⟩ :=
    .enter hcall hat (by rw [henv']; rfl) hmem hentered
  obtain ⟨mem', hnative, hstep⟩ := hentered.reaches_native (by rw [himpl, htotal])
    (by rw [himpl, hentry]) [caller] 0
  exact ⟨impl, first, caller, _, hcontext, hentry, hexception, hstarts, hcontext',
    (hmarker.tail henter).trans hnative, hbelow, rfl, hcall, himpl, rfl, hstep⟩

end Asllvm
