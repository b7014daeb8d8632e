import Asllvm.Host
import Asllvm.StackDepth

/-!
# Running the Code of an Instruction

An activation of a translated function: its allocas have the sizes the local structures give them
(`Activates`), and its calls are answered by a `Host`.

* `Reaches` — an activation gets from a state to another one. A predicate on the instructions run
  on the way says what it did not have to do for that.
* `runCode` — what the pieces of an instruction do, taken by themselves: run through, leave through
  a check that fires, or come to something LLVM does not define.

## Main results

* `CodeAt.reached` — an activation runs code that is laid out as its pieces say.
* `CodeOf.reached` — an activation runs an instruction as its pieces say.
* `StackFrame.eval_slotAddress` — where the variables of the frame lie in memory.
-/

open StateExcept

namespace Asllvm

/-- The allocas of an activation of a translated function have the sizes its local structures
give them. -/
structure Activates (T : Translation) (env : Env) : Prop where
  blocks : env.blocks = T.cfg.blocks
  storage : env.layout.size .storage = 4 * T.stack.totalSpace.toNat
  valueRegister : env.layout.size .valueRegister = 8
  objectRegister : env.layout.size .objectRegister = 8
  parameter : ∀ o parameter, T.stack.parameters.lookup o = some parameter →
    env.layout.size (.parameter o) = parameter.ty.storeSize

/-! ### Steps of an activation -/

/-- An activation gets from one state to another, past instructions of which `Q` holds: the calls
made before it and after it are listed, the latest first, and the host answers them. -/
inductive Reaches (env : Env) (host : Host) (Q : Instr → Prop) :
    List Request → LocalState → List Request → LocalState → Prop
  | refl (calls : List Request) (s : LocalState) : Reaches env host Q calls s calls s
  | next {calls calls' : List Request} {s s' s'' : LocalState} :
      (∀ i, itemAt env.blocks s.position = some (.instr i) → Q i) → s.step env = .next s' →
      Reaches env host Q calls s' calls' s'' → Reaches env host Q calls s calls' s''
  | call {calls calls' : List Request} {s s'' : LocalState} {dst : Option ℕ} {callee : Callee}
      {args : List Value} {request : Request} :
      (∀ i, itemAt env.blocks s.position = some (.instr i) → Q i) →
      s.step env = .call dst callee args →
      request = ⟨callee, args.map (·.eval env s.regs), s.mem⟩ →
      Reaches env host Q (request :: calls)
        (s.resume dst (host (request :: calls)).1 (host (request :: calls)).2) calls' s'' →
      Reaches env host Q calls s calls' s''

/-- An activation returns the word `state`. -/
def Returns (env : Env) (host : Host) (Q : Instr → Prop) (calls : List Request) (s : LocalState)
    (state : Word) (calls' : List Request) (mem : Bytes.Mem) : Prop :=
  ∃ s', Reaches env host Q calls s calls' s' ∧ s'.step env = .ret state ∧ s'.mem = mem

section Reaches

variable {env : Env} {host : Host} {Q R : Instr → Prop} {calls calls' calls'' : List Request}
  {s s' s'' : LocalState}

theorem Reaches.trans (h : Reaches env host Q calls s calls' s')
    (h' : Reaches env host Q calls' s' calls'' s'') : Reaches env host Q calls s calls'' s'' := by
  induction h with
  | refl => exact h'
  | next hq hstep _ ih => exact .next hq hstep (ih h')
  | call hq hstep hrequest _ ih => exact .call hq hstep hrequest (ih h')

theorem Reaches.mono (h : Reaches env host Q calls s calls' s') (hQ : ∀ i, Q i → R i) :
    Reaches env host R calls s calls' s' := by
  induction h with
  | refl => exact .refl _ _
  | next hq hstep _ ih => exact .next (fun i hi => hQ i (hq i hi)) hstep ih
  | call hq hstep hrequest _ ih => exact .call (fun i hi => hQ i (hq i hi)) hstep hrequest ih

/-- **Steps inside an activation**, without a call. -/
theorem Reaches.of_steps {n : ℕ} (h : s.steps env n = some s') :
    Reaches env host (fun _ => True) calls s calls s' := by
  induction n generalizing s with
  | zero =>
      obtain rfl : s = s' := Option.some.inj h
      exact .refl _ _
  | succ n ih =>
      rw [LocalState.steps] at h
      cases hstep : s.step env with
      | next s₁ =>
          rw [hstep] at h
          exact .next (fun _ _ => trivial) hstep (ih h)
      | call | ret | retVoid | undefined =>
          rw [hstep] at h
          exact absurd h (Option.some_ne_none _).symm

/-- A state of an activation from which it neither goes on nor makes a call. -/
def Halts (env : Env) (s : LocalState) : Prop :=
  (∀ s', s.step env ≠ .next s') ∧ ∀ dst callee args, s.step env ≠ .call dst callee args

theorem halts_of_ret {state : Word} (h : s.step env = .ret state) : Halts env s :=
  ⟨fun _ h' => Outcome.noConfusion (h.symm.trans h'),
    fun _ _ _ h' => Outcome.noConfusion (h.symm.trans h')⟩

/-- **An activation halts in one way at most**: every step but the answers of the host is
determined, and the host is given. -/
theorem Reaches.halts_unique (h : Reaches env host Q calls s calls' s') (hs' : Halts env s')
    (h' : Reaches env host R calls s calls'' s'') (hs'' : Halts env s'') :
    calls' = calls'' ∧ s' = s'' := by
  induction h with
  | refl =>
      cases h' with
      | refl => exact ⟨rfl, rfl⟩
      | next _ hstep _ => exact absurd hstep (hs'.1 _)
      | call _ hstep _ _ => exact absurd hstep (hs'.2 _ _ _)
  | next _ hstep _ ih =>
      cases h' with
      | refl => exact absurd hstep (hs''.1 _)
      | next _ hstep' h' =>
          obtain rfl := Outcome.next.inj (hstep.symm.trans hstep')
          exact ih hs' h'
      | call _ hstep' _ _ => exact Outcome.noConfusion (hstep.symm.trans hstep')
  | call _ hstep hrequest _ ih =>
      cases h' with
      | refl => exact absurd hstep (hs''.2 _ _ _)
      | next _ hstep' _ => exact Outcome.noConfusion (hstep.symm.trans hstep')
      | call _ hstep' hrequest' h' =>
          obtain ⟨rfl, rfl, rfl⟩ := Outcome.call.inj (hstep.symm.trans hstep')
          obtain rfl := hrequest.trans hrequest'.symm
          exact ih hs' h'

/-- An activation that halts has gone on past every state it reaches. -/
theorem Reaches.reaches_of_halts (h : Reaches env host Q calls s calls' s')
    (h' : Reaches env host R calls s calls'' s'') (hs'' : Halts env s'') :
    Reaches env host R calls' s' calls'' s'' := by
  induction h with
  | refl => exact h'
  | next _ hstep _ ih =>
      cases h' with
      | refl => exact absurd hstep (hs''.1 _)
      | next _ hstep' h' =>
          obtain rfl := Outcome.next.inj (hstep.symm.trans hstep')
          exact ih h'
      | call _ hstep' _ _ => exact Outcome.noConfusion (hstep.symm.trans hstep')
  | call _ hstep hrequest _ ih =>
      cases h' with
      | refl => exact absurd hstep (hs''.2 _ _ _)
      | next _ hstep' _ => exact Outcome.noConfusion (hstep.symm.trans hstep')
      | call _ hstep' hrequest' h' =>
          obtain ⟨rfl, rfl, rfl⟩ := Outcome.call.inj (hstep.symm.trans hstep')
          obtain rfl := hrequest.trans hrequest'.symm
          exact ih h'

end Reaches

/-! ### The pieces of an instruction -/

/-- What the pieces of an instruction come to. -/
inductive CodeResult
  | goes (p : Progress)
  | leaves (state : Word) (p : Progress)
  | stuck (p : Progress)

/-- The pieces of an instruction of an implementation, run one after another. A check that fires
leaves the function. -/
def runCode (env : Env) (host : Host) : List Piece → Progress → CodeResult
  | [], p => .goes p
  | .instr (.call dst callee args) :: ps, p =>
      runCode env host ps (p.call host dst callee (args.map (·.eval env p.regs)))
  | .instr i :: ps, p =>
      match i.exec env p.regs p.world.mem with
      | some (regs, mem) => runCode env host ps ⟨regs, mem, p.world.calls⟩
      | none => .stuck p
  | .check cond state :: ps, p =>
      if (cond.eval env p.regs).getLsbD 0 then .leaves (state.eval env p.regs) p
      else runCode env host ps p

/-- An activation whose code has come this far, in the instruction at an offset. -/
def Progress.within (p : Progress) (position : Position) (current : Option ℕ) : LocalState :=
  ⟨position, p.regs, p.world.mem, current⟩

/-- An activation gets from `s` to what some code comes to; `r` is the end of the code, which is part
of the instruction at `current`. -/
def CodeResult.Reached (env : Env) (host : Host) (Q : Instr → Prop) (current : Option ℕ)
    (calls : List Request) (s : LocalState) (r : Position) : CodeResult → Prop
  | .goes p => Reaches env host Q calls s p.world.calls (p.within r current)
  | .leaves state p => Returns env host Q calls s state p.world.calls p.world.mem
  | .stuck p => ∃ s', Reaches env host Q calls s p.world.calls s' ∧ s'.step env = .undefined

section

variable {env : Env} {host : Host} {Q : Instr → Prop} {p : Progress} {q r : Position}
  {ps : List Piece} {result : CodeResult} {calls calls' : List Request} {s s' : LocalState}
  {current : Option ℕ}

/-- An instruction other than a call, in front of other pieces. -/
theorem runCode_instr {i : Instr} (hcall : ∀ dst callee args, i ≠ .call dst callee args) :
    runCode env host (.instr i :: ps) p =
      match i.exec env p.regs p.world.mem with
      | some (regs, mem) => runCode env host ps ⟨regs, mem, p.world.calls⟩
      | none => .stuck p := by
  cases i with
  | call dst callee args => exact absurd rfl (hcall dst callee args)
  | _ => rfl

/-- An instruction other than a call that LLVM defines the effect of. -/
theorem runCode_step {i : Instr} {regs regs' : Regs} {mem mem' : Bytes.Mem}
    (hexec : i.exec env regs mem = some (regs', mem')) :
    runCode env host (.instr i :: ps) ⟨regs, mem, calls⟩ =
      runCode env host ps ⟨regs', mem', calls⟩ := by
  have hcall : ∀ dst callee args, i ≠ .call dst callee args := by
    rintro dst callee args rfl
    exact Option.some_ne_none _ hexec.symm
  rw [runCode_instr hcall, hexec]

/-- An instruction other than a call that LLVM defines no effect of. -/
theorem runCode_stuck {i : Instr} (hcall : ∀ dst callee args, i ≠ .call dst callee args)
    (hexec : i.exec env p.regs p.world.mem = none) :
    runCode env host (.instr i :: ps) p = .stuck p := by
  rw [runCode_instr hcall, hexec]

/-- Pieces and then more pieces. -/
theorem runCode_append {qs : List Piece} : runCode env host (ps ++ qs) p =
    match runCode env host ps p with
    | .goes p' => runCode env host qs p'
    | result => result := by
  induction ps generalizing p with
  | nil => rfl
  | cons piece ps ih =>
      rw [List.cons_append]
      cases piece with
      | check cond state =>
          rw [runCode, runCode]
          split
          · rfl
          · exact ih
      | instr i =>
          by_cases hcall : ∃ dst callee args, i = .call dst callee args
          · obtain ⟨dst, callee, args, rfl⟩ := hcall
            rw [runCode, runCode]
            exact ih
          · have hcall' := fun dst callee args h => hcall ⟨dst, callee, args, h⟩
            rw [runCode_instr hcall', runCode_instr hcall']
            cases i.exec env p.regs p.world.mem with
            | none => rfl
            | some result => exact ih

/-- What is reached after some steps is reached. -/
theorem CodeResult.Reached.of_reaches (hsteps : Reaches env host Q calls s calls' s')
    (h : result.Reached env host Q current calls' s' r) :
    result.Reached env host Q current calls s r := by
  cases result with
  | goes p => exact hsteps.trans h
  | leaves state p =>
      obtain ⟨s'', hreaches, hs''⟩ := h
      exact ⟨s'', hsteps.trans hreaches, hs''⟩
  | stuck p =>
      obtain ⟨s'', hreaches, hs''⟩ := h
      exact ⟨s'', hsteps.trans hreaches, hs''⟩

/-- **An activation runs code as its pieces say**, by induction on the layout: the block of a check
that fires returns. -/
theorem CodeAt.reached (hcode : CodeAt .Implementation env.blocks q ps r)
    (hQ : ∀ i, .instr i ∈ ps → Q i) (calls : List Request) (s : LocalState)
    (hs : s.position = q) :
    (runCode env host ps ⟨s.regs, s.mem, calls⟩).Reached env host Q s.current calls s r := by
  induction hcode generalizing calls s with
  | nil =>
      subst hs
      exact .refl _ _
  | @instr q r i ps hitem _ ih =>
      subst hs
      have hi : ∀ j, itemAt env.blocks s.position = some (.instr j) → Q j := by
        intro j hj
        obtain rfl := Item.instr.inj (Option.some.inj (hitem.symm.trans hj))
        exact hQ i List.mem_cons_self
      have hrest := ih fun j hj => hQ j (List.mem_cons_of_mem _ hj)
      by_cases hcall : ∃ dst callee args, i = .call dst callee args
      · obtain ⟨dst, callee, args, rfl⟩ := hcall
        have hstep : s.step env = .call dst callee args := LocalState.step_call hitem
        refine .of_reaches (.call hi hstep rfl (.refl _ _)) ?_
        exact hrest _ (s.resume dst _ _) rfl
      · rw [runCode_instr fun dst callee args h => hcall ⟨dst, callee, args, h⟩]
        cases hexec : i.exec env s.regs s.mem with
        | none =>
            refine ⟨s, .refl _ _, ?_⟩
            rw [LocalState.step, hitem]
            cases i with
            | call dst callee args => exact absurd ⟨dst, callee, args, rfl⟩ hcall
            | _ => dsimp only; rw [hexec]
        | some result =>
            obtain ⟨regs, mem⟩ := result
            have hstep := LocalState.step_instr hitem hexec
            refine .of_reaches (.next hi hstep (.refl _ _)) ?_
            exact hrest calls ⟨s.position.next, regs, mem, s.current⟩ rfl
  | @check q r cond state n ps hitem hblock _ ih =>
      subst hs
      have hi : ∀ j, itemAt env.blocks s.position = some (.instr j) → Q j := by
        intro j hj
        exact Item.noConfusion (Option.some.inj (hitem.symm.trans hj))
      have hbranch := LocalState.step_branch hitem rfl
      rw [runCode]
      cases hfired : (cond.eval env s.regs).getLsbD 0 with
      | false =>
          rw [hfired] at hbranch
          rw [if_neg Bool.false_ne_true]
          refine .of_reaches (.next hi hbranch (.refl _ _)) ?_
          exact ih (fun j hj => hQ j (List.mem_cons_of_mem _ hj)) calls
            ⟨(.doNotSetVmException n, 0), s.regs, s.mem, s.current⟩ rfl
      | true =>
          rw [hfired] at hbranch
          rw [if_pos rfl]
          have hret := itemAt_of_prefix hblock (k := 0) rfl
          refine ⟨_, .next hi hbranch (.refl _ _), ?_, rfl⟩
          rw [LocalState.step, if_pos rfl, hret]

end

/-! ### An instruction of a translated function -/

section Located

variable {context : FunctionContext} {bytecode : List BytecodeInstruction}
  {ins : BytecodeInstruction} {T : Translation} {st : BuilderState} {p : Position} {env : Env}

/-- **An instruction is run as its pieces say**, from its marker to where its pieces end; its
terminator lies there, if it has one. -/
theorem Located.reached (h : Located context T bytecode ins st p) :
    ∃ t s' q, Runs (translateOpcode T.stack T.jumps ins) { st.emit with out := [] } t s' ∧
      (∀ term, t = some term → itemAt T.cfg.blocks q = some (.term term)) ∧
      ∀ (env : Env) (host : Host) (Q : Instr → Prop) (calls : List Request) (s : LocalState),
        env.blocks = T.cfg.blocks → s.position = p → (∀ i, .instr i ∈ s'.out → Q i) →
        (runCode env host s'.out ⟨s.regs, s.mem, calls⟩).Reached env host Q (some ins.offset)
          calls s q := by
  obtain ⟨pre, post, st', t, s', q, rfl, hsplit⟩ := h
  refine ⟨t, s', q, hsplit.here.runs, ?_, ?_⟩
  · rintro term rfl
    have hleaves := hsplit.here.leaves
    generalize st'.cfg.position = r at hleaves
    cases hleaves with
    | closed hitem => exact hitem
  · intro env host Q calls s henv hs hQ
    have hmarker : itemAt env.blocks s.position = some (.marker ins.offset) := by
      rw [henv, hs]
      exact hsplit.here.marker
    have hstart : ∀ i, itemAt env.blocks s.position = some (.instr i) → Q i := by
      intro i hi
      exact Item.noConfusion (Option.some.inj (hmarker.symm.trans hi))
    have hcode := hsplit.here.code
    rw [← henv, ← hs] at hcode
    refine .of_reaches (.next hstart (LocalState.step_marker hmarker) (.refl _ _)) ?_
    exact hcode.reached hQ calls ⟨s.position.next, s.regs, s.mem, some ins.offset⟩ rfl

/-- The **code of an instruction** in a translated function: its marker is at `p`, its pieces `ps`
end at `q`, and the compile-time stack pointer was `sp` before them. -/
def CodeOf (context : FunctionContext) (T : Translation) (bytecode : List BytecodeInstruction)
    (ins : BytecodeInstruction) (sp : ℤ) (ps : List Piece) (p q : Position) : Prop :=
  ∃ st t s', Located context T bytecode ins st p ∧ st.emit.stackPointer = sp ∧ s'.out = ps ∧
    Runs (translateOpcode T.stack T.jumps ins) { st.emit with out := [] } t s' ∧
    (∀ term, t = some term → itemAt T.cfg.blocks q = some (.term term)) ∧
    ∀ (env : Env) (host : Host) (Q : Instr → Prop) (calls : List Request) (s : LocalState),
      env.blocks = T.cfg.blocks → s.position = p → (∀ i, .instr i ∈ ps → Q i) →
      (runCode env host ps ⟨s.regs, s.mem, calls⟩).Reached env host Q (some ins.offset) calls s q

theorem CodeOf.mem {sp : ℤ} {ps : List Piece} {q : Position}
    (h : CodeOf context T bytecode ins sp ps p q) : ins ∈ bytecode := by
  obtain ⟨_, _, _, hat, -⟩ := h
  exact hat.mem

/-- **The frame of a translation** is that of the function it is about. -/
theorem CodeOf.stack_eq {sp : ℤ} {ps : List Piece} {q : Position}
    (h : CodeOf context T bytecode ins sp ps p q) : T.stack.toFunctionContext = context := by
  obtain ⟨st, -, -, hat, -⟩ := h
  exact hat.stack_eq

/-- Every instruction of a translated function has its code. -/
theorem exists_codeOf (hwalked : Walked bytecode) (h : translateBytecode context bytecode = .ok T)
    (hins : ins ∈ bytecode) : ∃ sp ps p q, CodeOf context T bytecode ins sp ps p q := by
  obtain ⟨st, p, hat⟩ := exists_located hwalked h hins
  obtain ⟨t, s', q, hruns, hterm, hreached⟩ := hat.reached
  exact ⟨_, _, p, q, st, t, s', hat, rfl, rfl, hruns, hterm, hreached⟩

/-- The stack pointer in front of an instruction: what the stack effects of the instructions before
it in the text add up to. -/
def depthBefore (context : FunctionContext) (pre : List BytecodeInstruction) : ℤ :=
  pre.foldl (fun depth ins => stackEffect context ins depth) context.variableSpace

theorem forM_translateInstruction_stackPointer {stack : StackFrame} {jumps : JumpTables}
    (pre : List BytecodeInstruction) {st st' : BuilderState}
    (h : Runs (pre.forM (translateInstruction stack jumps)) st () st') :
    st'.emit.stackPointer = pre.foldl
      (fun depth ins => stackEffect stack.toFunctionContext ins depth) st.emit.stackPointer := by
  induction pre generalizing st with
  | nil =>
      rw [runs_forM_nil] at h
      rw [h]
      rfl
  | cons ins rest ih =>
      obtain ⟨st₁, hins, hrest⟩ := runs_forM_cons.mp h
      obtain ⟨-, -, t, e, hcode, -, -, hemit⟩ := runs_translateInstruction hins
      have hsp : st₁.emit.stackPointer = e.stackPointer := (EmitState.mk.inj hemit).1
      rw [ih hrest, hsp, translateOpcode_stackPointer hcode]
      rfl

/-- The code of an instruction, with the stack pointer in front of it. -/
theorem exists_codeOf_at (pre post : List BytecodeInstruction)
    (hwalked : Walked (pre ++ ins :: post))
    (h : translateBytecode context (pre ++ ins :: post) = .ok T) :
    ∃ ps p q, CodeOf context T (pre ++ ins :: post) ins (depthBefore context pre) ps p q := by
  obtain ⟨st, st', p, t, s', q, hsplit⟩ := exists_splitAt hwalked h
  have hat : Located context T (pre ++ ins :: post) ins st p := ⟨pre, post, _, _, _, _, rfl, hsplit⟩
  have hcontext := hsplit.scanned.context_eq
  obtain ⟨s₀, hlocal, hscan⟩ := hsplit.scanned
  have hsp : st.emit.stackPointer = depthBefore context pre := by
    rw [forM_translateInstruction_stackPointer pre hscan, hcontext]
    exact congrArg (List.foldl _ · pre) (emitAllocateLocalStructures_stack hlocal).2
  obtain ⟨t, s', q, hruns, hterm, hreached⟩ := hat.reached
  exact ⟨_, p, q, st, t, s', hat, hsp, rfl, hruns, hterm, hreached⟩

/-- **An activation runs the code of an instruction as its pieces say.** -/
theorem CodeOf.reached {sp : ℤ} {ps : List Piece} {q : Position}
    (h : CodeOf context T bytecode ins sp ps p q) (host : Host) (Q : Instr → Prop)
    (calls : List Request) {s : LocalState} (henv : env.blocks = T.cfg.blocks)
    (hs : s.position = p) (hQ : ∀ i, .instr i ∈ ps → Q i) :
    (runCode env host ps ⟨s.regs, s.mem, calls⟩).Reached env host Q (some ins.offset) calls s
      q := by
  obtain ⟨st, t, s', -, -, -, -, -, hreached⟩ := h
  exact hreached env host Q calls s henv hs hQ

/-- The code of an instruction is laid out from its marker on. -/
theorem CodeOf.codeAt {sp : ℤ} {ps : List Piece} {q : Position}
    (h : CodeOf context T bytecode ins sp ps p q) :
    itemAt T.cfg.blocks p = some (.marker ins.offset) ∧
      ∃ r, CodeAt .Implementation T.cfg.blocks p.next ps r := by
  obtain ⟨st, t, s', ⟨pre, post, st', t', s'', q', rfl, hsplit⟩, -, rfl, hruns, -, -⟩ := h
  obtain ⟨-, rfl⟩ := hruns.det hsplit.here.runs
  exact ⟨hsplit.here.marker, q', hsplit.here.code⟩

/-- **An activation runs the first pieces of an instruction as they say**; the others are laid out
where it comes to. -/
theorem CodeOf.reached_prefix {sp : ℤ} {ps qs : List Piece} {q : Position}
    (h : CodeOf context T bytecode ins sp (ps ++ qs) p q) (host : Host) (Q : Instr → Prop)
    (calls : List Request) {s : LocalState} (henv : env.blocks = T.cfg.blocks)
    (hs : s.position = p) (hQ : ∀ i, .instr i ∈ ps → Q i) :
    ∃ r r', (runCode env host ps ⟨s.regs, s.mem, calls⟩).Reached env host Q (some ins.offset) calls s
      r ∧ CodeAt .Implementation env.blocks r qs r' := by
  obtain ⟨hmarker, r', hcode⟩ := h.codeAt
  obtain ⟨r, hps, hqs⟩ := hcode.of_append
  rw [← henv, ← hs] at hmarker hps
  rw [← henv] at hqs
  have hstart : ∀ i, itemAt env.blocks s.position = some (.instr i) → Q i := by
    intro i hi
    exact Item.noConfusion (Option.some.inj (hmarker.symm.trans hi))
  refine ⟨r, r', .of_reaches (.next hstart (LocalState.step_marker hmarker) (.refl _ _)) ?_, hqs⟩
  exact hps.reached hQ calls ⟨s.position.next, s.regs, s.mem, some ins.offset⟩ rfl

/-- The pieces of an instruction that ends no block. -/
theorem CodeOf.ordinary {sp : ℤ} {ps : List Piece} {q : Position}
    (h : CodeOf context T bytecode ins sp ps p q) (hordinary : ins.bc.endsBlock = false) :
    ∃ (s s' : EmitState), s.stackPointer = sp ∧ s.out = [] ∧ s'.out = ps ∧
      Runs (translateOrdinary T.stack ins) s () s' := by
  obtain ⟨st, t, s', -, rfl, rfl, hruns, -, -⟩ := h
  rw [translateOpcode_of_ordinary T.stack T.jumps ins hordinary, runs_bind] at hruns
  obtain ⟨_, _, hruns, hpure⟩ := hruns
  obtain ⟨-, rfl⟩ := runs_pure.mp hpure
  exact ⟨{ st.emit with out := [] }, _, rfl, rfl, rfl, hruns⟩

end Located

/-! ### The variables of the frame -/

namespace StackFrame

/-- The variable at the offset has `n` bytes: those of its alloca, if it is a parameter, and else
those up to the end of the storage. -/
def InFrame (stack : StackFrame) (offset : ℤ) (n : ℕ) : Prop :=
  if offset ≤ 0 then ∃ parameter, stack.parameters.lookup offset = some parameter ∧
    n ≤ parameter.ty.storeSize
  else offset ≤ stack.totalSpace ∧ (n : ℤ) ≤ 4 * offset

/-- Where the variable at the offset lies in memory. -/
def byteAddress (stack : StackFrame) (layout : FrameLayout) (offset : ℤ) : ℕ :=
  if offset ≤ 0 then layout.address (.parameter offset)
  else layout.address .storage + 4 * (stack.totalSpace - offset).toNat

variable {stack : StackFrame} {offset : ℤ} {n : ℕ} {T : Translation} {env : Env}

/-- **A variable of the storage** that begins early enough for its bytes. -/
theorem inFrame_storage (hpos : 0 < offset) (hhigh : offset ≤ stack.totalSpace)
    (hlow : (n : ℤ) ≤ 4 * offset) : stack.InFrame offset n := by
  rw [InFrame, if_neg (by omega)]
  exact ⟨hhigh, hlow⟩

theorem InFrame.mono {m : ℕ} (h : stack.InFrame offset n) (hle : m ≤ n) :
    stack.InFrame offset m := by
  rw [InFrame] at h ⊢
  by_cases hoffset : offset ≤ 0
  · rw [if_pos hoffset] at h ⊢
    obtain ⟨parameter, hlookup, hn⟩ := h
    exact ⟨parameter, hlookup, hle.trans hn⟩
  · rw [if_neg hoffset] at h ⊢
    omega

/-- **A variable is accessible**, as far as it goes. -/
theorem InFrame.accessible (hact : Activates T env) (h : T.stack.InFrame offset n) :
    env.accessible (T.stack.slotAddress offset) n = true := by
  rw [InFrame] at h
  rw [slotAddress]
  split at h
  · obtain ⟨parameter, hlookup, hn⟩ := h
    rename_i hle
    rw [if_pos hle, Env.accessible, hact.parameter offset parameter hlookup]
    simp only [Int.le_refl, true_and, decide_eq_true_eq]
    omega
  · rename_i hpos
    rw [if_neg hpos, Env.accessible, hact.storage, decide_eq_true_eq]
    omega

/-- **The address of a variable.** -/
theorem InFrame.eval_slotAddress (hact : Activates T env) (h : T.stack.InFrame offset n)
    (regs : Regs) : ((T.stack.slotAddress offset).eval env regs).toNat =
      T.stack.byteAddress env.layout offset := by
  have haccessible := h.accessible hact
  rw [byteAddress]
  rw [slotAddress] at haccessible ⊢
  split
  · rw [if_pos (by assumption), Env.accessible, decide_eq_true_eq] at haccessible
    rw [Operand.eval_frame haccessible.1 (by omega)]
    rfl
  · rw [if_neg (by assumption), Env.accessible, decide_eq_true_eq] at haccessible
    rw [Operand.eval_frame haccessible.1 (by omega)]
    omega

/-- The **value of a variable** at a type. -/
def valueOf (stack : StackFrame) (layout : FrameLayout) (mem : Bytes.Mem) (offset : ℤ) (ty : Ty) :
    BitVec ty.bits :=
  (Bytes.read mem (stack.byteAddress layout offset) ty.storeSize).setWidth ty.bits

/-- The alloca a variable lies in. -/
def slot (offset : ℤ) : AllocaId := if offset ≤ 0 then .parameter offset else .storage

/-- A variable lies inside its alloca. -/
theorem InFrame.within (hact : Activates T env) (h : T.stack.InFrame offset n) :
    env.layout.address (slot offset) ≤ T.stack.byteAddress env.layout offset ∧
      T.stack.byteAddress env.layout offset + n ≤
        env.layout.address (slot offset) + env.layout.size (slot offset) := by
  rw [InFrame] at h
  rw [byteAddress, slot]
  by_cases hoffset : offset ≤ 0
  · rw [if_pos hoffset] at h
    obtain ⟨parameter, hlookup, hn⟩ := h
    rw [if_pos hoffset, if_pos hoffset, hact.parameter offset parameter hlookup]
    omega
  · rw [if_neg hoffset] at h
    rw [if_neg hoffset, if_neg hoffset, hact.storage]
    omega

/-- A variable is accessible only as far as it goes. -/
theorem InFrame.accessible_iff {m : ℕ} (hact : Activates T env) (h : T.stack.InFrame offset m) :
    env.accessible (T.stack.slotAddress offset) n = true ↔ T.stack.InFrame offset n := by
  refine ⟨fun haccessible => ?_, InFrame.accessible hact⟩
  rw [InFrame] at h ⊢
  rw [slotAddress] at haccessible
  by_cases hoffset : offset ≤ 0
  · rw [if_pos hoffset] at h haccessible ⊢
    obtain ⟨parameter, hlookup, -⟩ := h
    rw [Env.accessible, hact.parameter offset parameter hlookup, decide_eq_true_eq] at haccessible
    exact ⟨parameter, hlookup, by omega⟩
  · rw [if_neg hoffset] at h haccessible ⊢
    rw [Env.accessible, hact.storage, decide_eq_true_eq] at haccessible
    omega

/-- Loading a variable. -/
theorem InFrame.exec_load (ty : Ty) (hact : Activates T env)
    (h : T.stack.InFrame offset ty.storeSize) (regs : Regs) (mem : Bytes.Mem) (r : ℕ) :
    (Instr.load r ty (T.stack.slotAddress offset)).exec env regs mem =
      some (Function.update regs r
        (ty.truncate (Bytes.read mem (T.stack.byteAddress env.layout offset) ty.storeSize)), mem) := by
  rw [Instr.exec, if_pos (h.accessible hact), h.eval_slotAddress hact]

/-- Storing to a variable. -/
theorem InFrame.exec_store (ty : Ty) (hact : Activates T env)
    (h : T.stack.InFrame offset ty.storeSize) (regs : Regs) (mem : Bytes.Mem) (value : Operand) :
    (Instr.store ty value (T.stack.slotAddress offset)).exec env regs mem =
      some (regs, Bytes.write mem (T.stack.byteAddress env.layout offset) ty.storeSize
        (ty.truncate (value.eval env regs))) := by
  rw [Instr.exec, if_pos (h.accessible hact), h.eval_slotAddress hact]

end StackFrame

/-! ### The registers -/

section Registers

variable {T : Translation} {env : Env} {slot : AllocaId} {ty : Ty}

/-- Loading from the start of an alloca that is large enough. -/
theorem exec_load_alloca (ty : Ty) (h : ty.storeSize ≤ env.layout.size slot) (regs : Regs) (mem : Bytes.Mem)
    (r : ℕ) : (Instr.load r ty (.frame slot 0)).exec env regs mem =
      some (Function.update regs r
        (ty.truncate (Bytes.read mem (env.layout.address slot) ty.storeSize)), mem) := by
  have haccess : env.accessible (.frame slot 0) ty.storeSize = true := by
    rw [Env.accessible, decide_eq_true_eq]
    omega
  have haddress : ((Operand.frame slot 0).eval env regs).toNat = env.layout.address slot :=
    Operand.eval_frame (Int.le_refl 0) (by omega)
  rw [Instr.exec, if_pos haccess, haddress]

/-- Storing to the start of an alloca that is large enough. -/
theorem exec_store_alloca (ty : Ty) (h : ty.storeSize ≤ env.layout.size slot) (regs : Regs) (mem : Bytes.Mem)
    (value : Operand) : (Instr.store ty value (.frame slot 0)).exec env regs mem =
      some (regs, Bytes.write mem (env.layout.address slot) ty.storeSize
        (ty.truncate (value.eval env regs))) := by
  have haccess : env.accessible (.frame slot 0) ty.storeSize = true := by
    rw [Env.accessible, decide_eq_true_eq]
    omega
  have haddress : ((Operand.frame slot 0).eval env regs).toNat = env.layout.address slot :=
    Operand.eval_frame (Int.le_refl 0) (by omega)
  rw [Instr.exec, if_pos haccess, haddress]

/-- Loading through a virtual register. -/
theorem exec_load_reg (ty : Ty) (regs : Regs) (mem : Bytes.Mem) (r r' : ℕ) :
    (Instr.load r ty (.reg r')).exec env regs mem =
      some (Function.update regs r (ty.truncate (Bytes.read mem (regs r').toNat ty.storeSize)),
        mem) := by
  have haccess : env.accessible (.reg r') ty.storeSize = true := rfl
  rw [Instr.exec, if_pos haccess, Operand.eval]

/-- Storing through a virtual register. -/
theorem exec_store_reg (ty : Ty) (regs : Regs) (mem : Bytes.Mem) (r : ℕ) (value : Operand) :
    (Instr.store ty value (.reg r)).exec env regs mem =
      some (regs, Bytes.write mem (regs r).toNat ty.storeSize (ty.truncate (value.eval env regs))) := by
  have haccess : env.accessible (.reg r) ty.storeSize = true := rfl
  rw [Instr.exec, if_pos haccess, Operand.eval]

theorem Ty.storeSize_le (ty : Ty) : ty.storeSize ≤ 8 := by
  cases ty <;> simp [Ty.storeSize]

theorem Ty.bits_le (ty : Ty) : ty.bits ≤ 64 := by
  cases ty <;> simp [Ty.bits]

/-- The bits a type uses survive. -/
theorem Ty.setWidth_truncate (ty : Ty) (v : Word) :
    (ty.truncate v).setWidth ty.bits = v.setWidth ty.bits := by
  rw [Ty.truncate, BitVec.setWidth_setWidth_of_le _ ty.bits_le, BitVec.setWidth_eq]

theorem Ty.setWidth_setWidth (ty : Ty) (v : BitVec ty.bits) :
    (v.setWidth 64).setWidth ty.bits = v := by
  rw [BitVec.setWidth_setWidth_of_le _ ty.bits_le, BitVec.setWidth_eq]

theorem Ty.truncate_setWidth (ty : Ty) (v : BitVec ty.bits) :
    ty.truncate (v.setWidth 64) = v.setWidth 64 := by
  rw [Ty.truncate, Ty.setWidth_setWidth]

end Registers

/-! ### A place for an activation -/

/-- A layout for a frame that is not too large: parameters first, one after another, and then the
storage. -/
def StackFrame.layout (stack : StackFrame) (h : stack.totalSpace ≤ 2 ^ 32) : FrameLayout where
  address
    | .valueRegister => 16
    | .objectRegister => 32
    | .parameter o => if -64 < o ∧ o ≤ 0 then 64 + 8 * (-o).toNat else 0
    | .storage => 1024
  size
    | .valueRegister => 8
    | .objectRegister => 8
    | .parameter o => if -64 < o ∧ o ≤ 0 then
        ((stack.parameters.lookup o).map fun parameter => parameter.ty.storeSize).getD 0 else 0
    | .storage => 4 * stack.totalSpace.toNat
  bounded := by
    intro slot
    have hsize : ∀ o, ((stack.parameters.lookup o).map fun parameter =>
        parameter.ty.storeSize).getD 0 ≤ 8 := by
      intro o
      cases stack.parameters.lookup o with
      | none => exact Nat.zero_le 8
      | some parameter => exact parameter.ty.storeSize_le
    cases slot with
    | parameter o =>
        have := hsize o
        dsimp only
        split <;> omega
    | _ => dsimp only; omega
  disjoint := by
    intro slot slot' hne
    have hsize : ∀ o, ((stack.parameters.lookup o).map fun parameter =>
        parameter.ty.storeSize).getD 0 ≤ 8 := by
      intro o
      cases stack.parameters.lookup o with
      | none => exact Nat.zero_le 8
      | some parameter => exact parameter.ty.storeSize_le
    cases slot with
    | parameter o =>
        have := hsize o
        cases slot' with
        | parameter o' =>
            have := hsize o'
            have hoffset : o ≠ o' := fun h => hne (congrArg _ h)
            dsimp only
            split <;> split <;> omega
        | _ => dsimp only; split <;> omega
    | _ =>
        cases slot' with
        | parameter o' =>
            have := hsize o'
            dsimp only
            split <;> omega
        | _ => first | exact absurd rfl hne | (dsimp only; omega)

/-- An activation of a translated function in that layout. -/
def Translation.env (T : Translation) (h : T.stack.totalSpace ≤ 2 ^ 32) (args : List Word) : Env where
  blocks := T.cfg.blocks
  args := args
  layout := T.stack.layout h
  symbols := ⟨fun _ => 0, fun _ => 0, fun _ => 0, fun _ => 0⟩
  floats := ⟨fun _ _ _ _ => 0, fun _ _ _ _ => false, fun _ _ _ _ => 0⟩

theorem Translation.activates_env (T : Translation) (h : T.stack.totalSpace ≤ 2 ^ 32)
    (args : List Word) (hparameters : ∀ entry ∈ T.stack.parameters, -64 < entry.1 ∧ entry.1 ≤ 0) :
    Activates T (T.env h args) where
  blocks := rfl
  storage := rfl
  valueRegister := rfl
  objectRegister := rfl
  parameter := by
    intro o parameter hlookup
    obtain ⟨before, after, hsplit, -⟩ := List.lookup_eq_some_iff.mp hlookup
    have hrange : -64 < o ∧ o ≤ 0 :=
      hparameters (o, parameter) (by rw [hsplit]; exact List.mem_append_right _ List.mem_cons_self)
    change (if -64 < o ∧ o ≤ 0 then _ else _) = _
    rw [if_pos hrange, hlookup]
    rfl

/-- A layout further up in the address space. -/
def FrameLayout.shift (layout : FrameLayout) (base : ℕ)
    (h : ∀ slot, base + (layout.address slot + layout.size slot) < 2 ^ 64) : FrameLayout where
  address slot := base + layout.address slot
  size := layout.size
  bounded slot := by
    have := h slot
    omega
  disjoint slot slot' hne := by
    have := layout.disjoint slot slot' hne
    omega

/-- One frame lies **below** another one. -/
def FrameLayout.Below (layout layout' : FrameLayout) : Prop :=
  ∀ slot slot', layout.address slot + layout.size slot ≤ layout'.address slot'

theorem StackFrame.layout_le (stack : StackFrame) (h : stack.totalSpace ≤ 2 ^ 32)
    (slot : AllocaId) : (stack.layout h).address slot + (stack.layout h).size slot ≤ 2 ^ 35 := by
  cases slot with
  | valueRegister => exact (by decide : 16 + 8 ≤ 2 ^ 35)
  | objectRegister => exact (by decide : 32 + 8 ≤ 2 ^ 35)
  | storage =>
      change 1024 + 4 * stack.totalSpace.toNat ≤ 2 ^ 35
      omega
  | parameter o =>
      have hsize : ((stack.parameters.lookup o).map fun parameter =>
          parameter.ty.storeSize).getD 0 ≤ 8 := by
        cases stack.parameters.lookup o with
        | none => exact Nat.zero_le 8
        | some parameter => exact parameter.ty.storeSize_le
      simp only [StackFrame.layout]
      split <;> omega

/-- An activation of a translated function whose frame lies above an address. -/
def Translation.envAt (T : Translation) (h : T.stack.totalSpace ≤ 2 ^ 32) (base : ℕ)
    (hbase : base ≤ 2 ^ 63) (args : List Word) (symbols : Symbols) : Env :=
  { T.env h args with
    symbols := symbols
    layout := (T.stack.layout h).shift base fun slot => by
      have := T.stack.layout_le h slot
      omega }

theorem Translation.activates_envAt (T : Translation) (h : T.stack.totalSpace ≤ 2 ^ 32)
    {base : ℕ} (hbase : base ≤ 2 ^ 63) (args : List Word) (symbols : Symbols)
    (hparameters : ∀ entry ∈ T.stack.parameters, -64 < entry.1 ∧ entry.1 ≤ 0) :
    Activates T (T.envAt h base hbase args symbols) :=
  have hact := T.activates_env h args hparameters
  ⟨hact.blocks, hact.storage, hact.valueRegister, hact.objectRegister, hact.parameter⟩

/-- A frame at the bottom lies below one further up. -/
theorem Translation.envAt_below {T T' : Translation} (h : T.stack.totalSpace ≤ 2 ^ 32)
    (h' : T'.stack.totalSpace ≤ 2 ^ 32) {base : ℕ} (hlow : 2 ^ 35 ≤ base) (hbase : base ≤ 2 ^ 63)
    {args args' : List Word} {symbols symbols' : Symbols} :
    (T.envAt h 0 (Nat.zero_le _) args symbols).layout.Below
      (T'.envAt h' base hbase args' symbols').layout := by
  intro slot slot'
  have hle := T.stack.layout_le h slot
  change 0 + (T.stack.layout h).address slot + (T.stack.layout h).size slot ≤
    base + (T'.stack.layout h').address slot'
  omega

/-! ### The entry of a function without parameters -/

/-- What the code of a function without parameters and local structures begins with, when its frame
has some bytes. -/
def prologue (bytes : ℕ) : List Item := [
  .instr (.alloca .valueRegister 8), .instr (.alloca .objectRegister 8),
  .instr (.alloca .storage bytes),
  .instr (.store .i64 (.const 0) (.frame .valueRegister 0)),
  .instr (.store .pvoid (.const 0) (.frame .objectRegister 0)),
  .instr (.memset (.frame .storage 0) 0 bytes)]

/-- **The prologue is run**: the frame is zero afterwards. -/
theorem LocalState.steps_prologue {T : Translation} {env : Env} {bytes : ℕ} {s : LocalState}
    (hact : Activates T env) (hbytes : env.layout.size .storage = bytes)
    (hblocks : prologue bytes <+: T.cfg.blocks .entry) (hs : s.position = (.entry, 0)) :
    ∃ mem, s.steps env 6 = some ⟨(.entry, 6), s.regs,
      Bytes.fill mem (env.layout.address .storage) bytes 0, s.current⟩ := by
  have hitem : ∀ k item, (prologue bytes)[k]? = some item →
      itemAt env.blocks (.entry, k) = some item := by
    intro k item hk
    obtain ⟨rest, hrest⟩ := hblocks
    rw [itemAt, hact.blocks, ← hrest,
      List.getElem?_append_left (List.getElem?_eq_some_iff.mp hk).1]
    exact hk
  have hexec : ∀ slot n regs mem, (Instr.alloca slot n).exec env regs mem =
      some (regs, mem) := fun _ _ _ _ => rfl
  have hvalue : ∀ regs mem, (Instr.store .i64 (.const 0) (.frame .valueRegister 0)).exec
      env regs mem = some (regs, _) :=
    fun regs mem => exec_store_alloca .i64 (by rw [hact.valueRegister]; exact le_rfl) regs mem _
  have hobject : ∀ regs mem, (Instr.store .pvoid (.const 0) (.frame .objectRegister 0)).exec
      env regs mem = some (regs, _) :=
    fun regs mem => exec_store_alloca .pvoid (by rw [hact.objectRegister]; exact le_rfl) regs mem _
  have hmemset : ∀ regs mem, (Instr.memset (.frame .storage 0) 0 bytes).exec env regs mem =
      some (regs, Bytes.fill mem (env.layout.address .storage) bytes 0) := by
    intro regs mem
    have haccess : env.accessible (.frame .storage 0) bytes = true := by
      rw [Env.accessible, decide_eq_true_eq, hbytes]
      omega
    rw [Instr.exec, if_pos haccess, Operand.eval_frame le_rfl (by omega)]
    rfl
  obtain ⟨position, regs, mem, current⟩ := s
  obtain rfl : position = (.entry, 0) := hs
  refine ⟨Bytes.write (Bytes.write mem (env.layout.address .valueRegister) 8 0)
    (env.layout.address .objectRegister) 8 0, ?_⟩
  rw [LocalState.steps_succ (LocalState.step_instr (hitem 0 _ rfl) (hexec _ _ _ _)),
    LocalState.steps_succ (LocalState.step_instr (hitem 1 _ rfl) (hexec _ _ _ _)),
    LocalState.steps_succ (LocalState.step_instr (hitem 2 _ rfl) (hexec _ _ _ _)),
    LocalState.steps_succ (LocalState.step_instr (hitem 3 _ rfl) (hvalue _ _)),
    LocalState.steps_succ (LocalState.step_instr (hitem 4 _ rfl) (hobject _ _)),
    LocalState.steps_succ (LocalState.step_instr (hitem 5 _ rfl) (hmemset _ _))]
  rfl

end Asllvm
