import Asllvm.Traces

/-!
# The Prologue of a Function

The code that `emit_allocate_local_structures` puts in front of the code of the bytecode: every
parameter is stored in an alloca of its own, and then the two registers and the storage are cleared.

* `storagePieces` — the code of the parameters, one slot after another.
* `prologuePieces` — the code of all local structures.
* `FrameLayout.Agrees` — two memories agree on an alloca.

## Main results

* `emitAllocateLocalStructures_runs` — the local structures of a supported function are emitted.
* `prologuePieces_goes` — an activation starts with its arguments in its parameters, and with
  everything else cleared.
-/

open StateExcept Slots

namespace Asllvm

/-- The code that stores the arguments from the `i`-th on in the allocas of the slots from the offset
`o` down. -/
def storagePieces : ℕ → ℤ → List DataType → List Ty → List Piece
  | i, o, slot :: slots, ty :: tys =>
      .instr (.alloca (.parameter o) ty.storeSize) ::
        .instr (.store ty (.arg i) (.frame (.parameter o) 0)) ::
          storagePieces (i + 1) (o - slot.sizeOnStackDWords) slots tys
  | _, _, _, _ => []

/-- The code that clears the registers and `bytes` bytes of storage. -/
def clearingPieces (bytes : ℕ) : List Piece := [
  .instr (.store .i64 (.const 0) (.frame .valueRegister 0)),
  .instr (.store .pvoid (.const 0) (.frame .objectRegister 0)),
  .instr (.memset (.frame .storage 0) 0 bytes)]

/-- The code of the **local structures** of a function. -/
def prologuePieces (context : FunctionContext) (tys : List Ty) : List Piece :=
  .instr (.alloca .valueRegister 8) :: .instr (.alloca .objectRegister 8) ::
    .instr (.alloca .storage (4 * context.totalSpace.toNat)) ::
      (storagePieces (hiddenArguments context.scriptFunction) 0
        (scriptCallSlots context.engine context.scriptFunction) tys ++
      clearingPieces (4 * context.totalSpace.toNat))

/-- The memory with the registers and the storage cleared. -/
def FrameLayout.cleared (layout : FrameLayout) (mem : Bytes.Mem) : Bytes.Mem :=
  Bytes.fill (Bytes.write (Bytes.write mem (layout.address .valueRegister) 8 0)
    (layout.address .objectRegister) 8 0) (layout.address .storage) (layout.size .storage) 0

/-- Two memories **agree on an alloca**. -/
def FrameLayout.Agrees (layout : FrameLayout) (slot : AllocaId) (mem mem' : Bytes.Mem) : Prop :=
  ∀ a, layout.address slot ≤ a → a < layout.address slot + layout.size slot → mem' a = mem a

/-! ### The code -/

section Code

variable {config : JitConfig} {context : FunctionContext} {types tys : List Ty}
  {st : ParameterStorage} {s : EmitState} {slots : List DataType}

/-- **The parameters are emitted**, by induction on the slots: each takes the next offset, which is
free. -/
theorem foldlM_allocateParameter_runs (htys : slots.mapM toLlvmType = .ok tys)
    (htypes : ∀ (k : ℕ) ty, tys[k]? = some ty → types[st.argumentIt + k]? = some ty)
    (hpos : ∀ slot ∈ slots, 0 < slot.sizeOnStackDWords)
    (hkeys : ∀ o ≤ st.stackOffset, st.parameters.lookup o = none) :
    ∃ st', Runs (slots.foldlM (allocateParameter config types) st) s st'
      (s.extend 0 (storagePieces st.argumentIt st.stackOffset slots tys)) := by
  induction slots generalizing st s tys with
  | nil =>
      obtain rfl := Except.ok.inj htys
      exact ⟨st, runs_foldlM_nil.mpr ⟨rfl, by simp [storagePieces]⟩⟩
  | cons slot slots ih =>
      cases mapM_eq_ok.mp htys with
      | @cons _ ty _ tys hty hrest =>
          have hfree := hkeys st.stackOffset le_rfl
          have hsize := hpos slot List.mem_cons_self
          let next : ParameterStorage := ⟨st.stackOffset - slot.sizeOnStackDWords, st.argumentIt + 1,
            (st.stackOffset, ⟨st.argumentIt, ty⟩) :: st.parameters⟩
          have hfirst : Runs (allocateParameter config types st slot) s next
              (s.extend 0 [.instr (.alloca (.parameter st.stackOffset) ty.storeSize),
                .instr (.store ty (.arg st.argumentIt) (.frame (.parameter st.stackOffset) 0))]) := by
            have hargument : types[st.argumentIt]? = some ty := htypes 0 ty rfl
            simp [allocateParameter, hfree, hty, hargument, next]
          obtain ⟨st', hrun⟩ := @ih tys next (s.extend 0 _) (mapM_eq_ok.mpr hrest)
            (fun k ty' hk => by
              have hnext := htypes (k + 1) ty' hk
              rwa [Nat.add_comm k, ← Nat.add_assoc] at hnext)
            (fun slot' hslot' => hpos slot' (List.mem_cons_of_mem _ hslot'))
            (fun o ho => by
              have ho' : o ≤ st.stackOffset - slot.sizeOnStackDWords := ho
              rw [List.lookup_cons, show (o == st.stackOffset) = false by simp; omega]
              exact hkeys o (by omega))
          refine ⟨st', runs_foldlM_cons.mpr ⟨next, _, hfirst, ?_⟩⟩
          rw [EmitState.extend_extend] at hrun
          exact hrun

/-- A supported function has a signature. -/
theorem exists_getScriptFunctionType {engine : Engine} {function : ScriptFunction}
    (hsupported : function.Supported engine)
    (hreturned : ∃ ty, toLlvmType function.returnType = .ok ty) :
    ∃ types, getScriptFunctionType engine function = .ok types := by
  obtain ⟨ty, hty⟩ := hreturned
  have hslots : ∀ slot, slot ∈ (function.objectType.map engine.objectDataType).toList ++
      function.parameterTypes → slot.Supported := fun slot hslot =>
    hsupported.slots slot (List.mem_append_right _ hslot)
  obtain ⟨parameters, hparameters⟩ := exists_mapM_toLlvmType fun slot hslot =>
    hslots slot (List.mem_append_right _ hslot)
  obtain ⟨returned, hreturned⟩ : ∃ returned, returnedTypes function = .ok returned := by
    rw [returnedTypes, hty]
    split
    · exact ⟨_, rfl⟩
    · exact ⟨_, rfl⟩
  obtain ⟨object, hobject⟩ : ∃ object, objectTypes engine function = .ok object := by
    rw [objectTypes]
    cases htype : function.objectType with
    | none => exact ⟨_, rfl⟩
    | some objectType =>
        obtain ⟨ty', hty'⟩ := (hslots (engine.objectDataType objectType)
          (List.mem_append_left _ (by simp [htype]))).exists_toLlvmType
        dsimp only
        rw [hty']
        exact ⟨_, rfl⟩
  rw [getScriptFunctionType, hreturned, hobject, hparameters]
  exact ⟨_, rfl⟩

/-- **The local structures are emitted.** -/
theorem emitAllocateLocalStructures_runs
    (hsupported : context.scriptFunction.Supported context.engine)
    (hreturned : ∃ ty, toLlvmType context.scriptFunction.returnType = .ok ty) :
    ∃ stack tys, (scriptCallSlots context.engine context.scriptFunction).mapM toLlvmType = .ok tys ∧
      Runs (emitAllocateLocalStructures context) s stack
        ({ s with stackPointer := context.variableSpace }.extend 0 (prologuePieces context tys)) := by
  obtain ⟨types, htypes⟩ := exists_getScriptFunctionType hsupported hreturned
  obtain ⟨hidden, tys, rfl, hhidden, htys⟩ := getScriptFunctionType_eq_ok htypes
  have hargument : ∀ (k : ℕ) ty, tys[k]? = some ty →
      (hidden ++ tys)[hiddenArguments context.scriptFunction + k]? = some ty := by
    intro k ty hk
    rwa [← hhidden, List.getElem?_append_right (Nat.le_add_right _ _), Nat.add_sub_cancel_left]
  obtain ⟨st, hrun⟩ := @foldlM_allocateParameter_runs context.config (hidden ++ tys) tys
    ⟨0, hiddenArguments context.scriptFunction, []⟩
    (((s.extend 0 [.instr (.alloca .valueRegister 8)]).extend 0
      [.instr (.alloca .objectRegister 8)]).extend 0
        [.instr (.alloca .storage (4 * context.totalSpace.toNat))])
    (scriptCallSlots context.engine context.scriptFunction) (mapM_eq_ok.mpr htys) hargument
    (fun slot hslot => (hsupported.slots slot hslot).size_pos) (fun _ _ => rfl)
  have hparameters := runs_allocateParameterStorage.mpr ⟨_, st, htypes, rfl, hrun⟩
  refine ⟨{ context with parameters := st.parameters }, tys, mapM_eq_ok.mpr htys, ?_⟩
  simp only [emitAllocateLocalStructures, runs_bind, runs_emitInstr, runs_modify, runs_createStore,
    runs_pure]
  refine ⟨(), _, rfl, (), _, rfl, (), _, rfl, st.parameters, _, hparameters, (), _, rfl, (), _, rfl,
    (), _, rfl, (), _, rfl, rfl, ?_⟩
  simp [prologuePieces, clearingPieces, EmitState.extend, constantInt, objectRegister, valueRegister,
    StackFrame.storageAlloca]

/-- **Where a parameter is kept**: at the offset of its slot. -/
theorem emitAllocateLocalStructures_lookup {stack : StackFrame} {t : EmitState} {k : ℕ}
    {slot : DataType} {ty : Ty} (hsupported : context.scriptFunction.Supported context.engine)
    (h : Runs (emitAllocateLocalStructures context) s stack t)
    (hslot : (scriptCallSlots context.engine context.scriptFunction)[k]? = some slot)
    (hty : toLlvmType slot = .ok ty) : stack.parameters.lookup
      (-slotOffset (scriptCallSlots context.engine context.scriptFunction) k : ℤ) =
        some ⟨hiddenArguments context.scriptFunction + k, ty⟩ := by
  simp only [emitAllocateLocalStructures, runs_bind, runs_emitInstr, runs_modify, runs_createStore,
    runs_pure] at h
  obtain ⟨_, _, -, _, _, -, _, _, -, parameters, _, hparameters, _, _, -, _, _, -, _, _, -, _, _, -,
    rfl, -⟩ := h
  obtain ⟨types, ps, -, -, hstored⟩ := allocateParameterStorage_code hsupported hparameters
  obtain ⟨ty', _, hty', -, hlookup, -⟩ := hstored k slot hslot
  obtain rfl := Except.ok.inj (hty.symm.trans hty')
  exact hlookup

end Code

/-! ### The run -/

section Run

variable {T : Translation} {env : Env} {layout : FrameLayout} {slot slot' : AllocaId}
  {mem mem' mem'' : Bytes.Mem} {a n : ℕ} {ty : Ty} {tys : List Ty} {slots : List DataType} {o : ℤ}

namespace FrameLayout.Agrees

theorem refl : layout.Agrees slot mem mem := fun _ _ _ => rfl

theorem trans (h : layout.Agrees slot mem mem') (h' : layout.Agrees slot mem' mem'') :
    layout.Agrees slot mem mem'' := fun a ha ha' => (h' a ha ha').trans (h a ha ha')

/-- A write to another alloca. -/
theorem write (hne : slot ≠ slot') (hlow : layout.address slot' ≤ a)
    (hhigh : a + n ≤ layout.address slot' + layout.size slot') (v : Word) :
    layout.Agrees slot mem (Bytes.write mem a n v) := by
  intro b hb hb'
  have hapart := layout.disjoint slot slot' hne
  exact Bytes.write_outside (by omega)

/-- Another alloca is filled. -/
theorem fill (hne : slot ≠ slot') (byte : BitVec 8) : layout.Agrees slot mem
    (Bytes.fill mem (layout.address slot') (layout.size slot') byte) := by
  intro b hb hb'
  have hapart := layout.disjoint slot slot' hne
  rw [Bytes.fill, if_neg (by omega)]

theorem read (h : layout.Agrees slot mem mem') (hlow : layout.address slot ≤ a)
    (hhigh : a + n ≤ layout.address slot + layout.size slot) :
    Bytes.read mem' a n = Bytes.read mem a n :=
  Bytes.read_congr fun i hi => h (a + i) (by omega) (by omega)

end FrameLayout.Agrees

/-- The word of a slot is in its alloca. -/
theorem StackFrame.InFrame.slotWord_agrees (hact : Activates T env)
    (hframe : T.stack.InFrame o ty.storeSize)
    (h : env.layout.Agrees (StackFrame.slot o) mem mem') :
    T.stack.slotWord env.layout mem' o ty = T.stack.slotWord env.layout mem o ty := by
  obtain ⟨hlow, hhigh⟩ := hframe.within hact
  rw [slotWord, slotWord, h.read hlow hhigh]

/-- The slots of a function are where its arguments have been stored. -/
def HoldsArguments (stack : StackFrame) (env : Env) (mem : Bytes.Mem) (i : ℕ) (o : ℤ)
    (slots : List DataType) (tys : List Ty) : Prop :=
  ∀ (k : ℕ) slot ty, slots[k]? = some slot → tys[k]? = some ty →
    stack.InFrame (o - slotOffset slots k) ty.storeSize ∧
      stack.slotWord env.layout mem (o - slotOffset slots k) ty =
        ty.truncate (env.args.getD (i + k) 0)

/-- **The arguments are stored** in their allocas, by induction on the slots: a later one lies
below. -/
theorem storagePieces_goes (host : Host) (hact : Activates T env) (i : ℕ) (ho : o ≤ 0)
    (hsizes : ∀ slot ∈ slots, 0 < slot.sizeOnStackDWords)
    (hlookup : ∀ (k : ℕ) slot ty, slots[k]? = some slot → tys[k]? = some ty →
      T.stack.parameters.lookup (o - slotOffset slots k) = some ⟨i + k, ty⟩) (regs : Regs)
    (mem : Bytes.Mem) (calls : List Request) :
    ∃ mem', runCode env host (storagePieces i o slots tys) ⟨regs, mem, calls⟩ =
        .goes ⟨regs, mem', calls⟩ ∧ HoldsArguments T.stack env mem' i o slots tys ∧
      ∀ slot, (∀ o' ≤ o, slot ≠ .parameter o') → env.layout.Agrees slot mem mem' := by
  induction slots generalizing i o tys mem with
  | nil =>
      exact ⟨mem, by simp [storagePieces, runCode], fun k slot ty hslot => by simp at hslot,
        fun _ _ => .refl⟩
  | cons slot slots ih =>
      cases tys with
      | nil =>
          exact ⟨mem, by simp [storagePieces, runCode], fun k slot ty _ hty => by simp at hty,
            fun _ _ => .refl⟩
      | cons ty tys =>
          have hsize := hsizes slot List.mem_cons_self
          have hfirst := hlookup 0 slot ty rfl rfl
          rw [slotOffset, offset_zero, Nat.cast_zero, Int.sub_zero] at hfirst
          have hwidth : env.layout.size (.parameter o) = ty.storeSize := hact.parameter o _ hfirst
          have hoffset : ∀ k : ℕ, o - slotOffset (slot :: slots) (k + 1) =
              o - slot.sizeOnStackDWords - slotOffset slots k := by
            intro k
            rw [slotOffset, offset_cons_succ, Nat.cast_add, Int.sub_sub]
          have halloca : (Instr.alloca (.parameter o) ty.storeSize).exec env regs mem =
              some (regs, mem) := rfl
          have hstore := exec_store_alloca ty (Nat.le_of_eq hwidth.symm) regs mem (.arg i)
          obtain ⟨stored, hstored⟩ : ∃ stored, Bytes.write mem (env.layout.address (.parameter o))
              ty.storeSize (ty.truncate ((Operand.arg i).eval env regs)) = stored := ⟨_, rfl⟩
          rw [hstored] at hstore
          obtain ⟨mem', hgoes, hwords, hagrees⟩ := @ih tys (o - slot.sizeOnStackDWords) (i + 1)
            (by omega) (fun slot' hslot' => hsizes slot' (List.mem_cons_of_mem _ hslot'))
            (fun k slot' ty' hslot hty => by
              rw [← hoffset, hlookup (k + 1) slot' ty' hslot hty, Nat.add_comm k, Nat.add_assoc])
            stored
          refine ⟨mem', ?_, ?_, fun slot' hslot' => ?_⟩
          · rw [storagePieces, runCode_step halloca, runCode_step hstore]
            exact hgoes
          · intro k slot' ty' hslot hty
            cases k with
            | zero =>
                obtain rfl : ty = ty' := by simpa using hty
                rw [slotOffset, offset_zero, Nat.cast_zero, Int.sub_zero, Nat.add_zero]
                have hframe : T.stack.InFrame o ty.storeSize := by
                  rw [StackFrame.InFrame, if_pos ho]
                  exact ⟨_, hfirst, le_rfl⟩
                have hkept : env.layout.Agrees (StackFrame.slot o) stored mem' := by
                  rw [StackFrame.slot, if_pos ho]
                  refine hagrees _ fun o' ho' => ?_
                  rintro ⟨⟩
                  omega
                refine ⟨hframe, ?_⟩
                rw [hframe.slotWord_agrees hact hkept, StackFrame.slotWord, StackFrame.byteAddress,
                  if_pos ho, ← hstored, read_write_truncate]
                rfl
            | succ k =>
                rw [hoffset, show i + (k + 1) = i + 1 + k by omega]
                exact hwords k slot' ty' (by simpa using hslot) (by simpa using hty)
          · refine FrameLayout.Agrees.trans ?_ (hagrees slot' fun o' ho' => hslot' o' (by omega))
            rw [← hstored]
            exact .write (hslot' o le_rfl) le_rfl (by rw [hwidth]) _

/-- **The registers and the storage are cleared.** -/
theorem clearingPieces_goes (hact : Activates T env) (host : Host) (regs : Regs) (mem : Bytes.Mem)
    (calls : List Request) :
    runCode env host (clearingPieces (4 * T.stack.totalSpace.toNat)) ⟨regs, mem, calls⟩ =
      .goes ⟨regs, env.layout.cleared mem, calls⟩ := by
  have hvalue : (Instr.store .i64 (.const 0) (.frame .valueRegister 0)).exec env regs mem =
      some (regs, Bytes.write mem (env.layout.address .valueRegister) 8 0) :=
    exec_store_alloca .i64 (Nat.le_of_eq hact.valueRegister.symm) _ _ _
  have hobject : ∀ mem, (Instr.store .pvoid (.const 0) (.frame .objectRegister 0)).exec env regs mem =
      some (regs, Bytes.write mem (env.layout.address .objectRegister) 8 0) := fun mem =>
    exec_store_alloca .pvoid (Nat.le_of_eq hact.objectRegister.symm) _ _ _
  have hmemset : ∀ mem, (Instr.memset (.frame .storage 0) 0 (env.layout.size .storage)).exec env regs
      mem = some (regs, Bytes.fill mem (env.layout.address .storage) (env.layout.size .storage) 0) := by
    intro mem
    have haccess : env.accessible (.frame .storage 0) (env.layout.size .storage) = true := by
      rw [Env.accessible, decide_eq_true_eq]
      omega
    have hbounded := env.layout.bounded .storage
    rw [Instr.exec, if_pos haccess, Operand.eval_frame le_rfl (by omega)]
    rfl
  rw [clearingPieces, ← hact.storage, runCode_step hvalue, runCode_step (hobject _),
    runCode_step (hmemset _)]
  rfl

/-- Parameters are left alone. -/
theorem FrameLayout.cleared_agrees (hact : Activates T env) (o : ℤ) (mem : Bytes.Mem) :
    env.layout.Agrees (.parameter o) mem (env.layout.cleared mem) := by
  have hvalue : env.layout.Agrees (.parameter o) mem
      (Bytes.write mem (env.layout.address .valueRegister) 8 0) :=
    .write AllocaId.noConfusion le_rfl (by rw [hact.valueRegister]) 0
  have hobject : env.layout.Agrees (.parameter o)
      (Bytes.write mem (env.layout.address .valueRegister) 8 0)
      (Bytes.write (Bytes.write mem (env.layout.address .valueRegister) 8 0)
        (env.layout.address .objectRegister) 8 0) :=
    .write AllocaId.noConfusion le_rfl (by rw [hact.objectRegister]) 0
  exact (hvalue.trans hobject).trans (.fill AllocaId.noConfusion 0)

/-- The value register is zero. -/
theorem FrameLayout.cleared_valueRegister (hact : Activates T env) (mem : Bytes.Mem) :
    Bytes.read (env.layout.cleared mem) (env.layout.address .valueRegister) 8 = 0 := by
  have hapart := env.layout.disjoint .valueRegister
  have hobject := hapart .objectRegister AllocaId.noConfusion
  have hstorage := hapart .storage AllocaId.noConfusion
  rw [hact.valueRegister] at hobject hstorage
  rw [hact.objectRegister] at hobject
  rw [cleared, Bytes.read_fill_disjoint hstorage, Bytes.read_write_disjoint hobject,
    Bytes.read_write_same]
  rfl

/-- So is the object register. -/
theorem FrameLayout.cleared_objectRegister (hact : Activates T env) (mem : Bytes.Mem) :
    Bytes.read (env.layout.cleared mem) (env.layout.address .objectRegister) 8 = 0 := by
  have hstorage := env.layout.disjoint .objectRegister .storage AllocaId.noConfusion
  rw [hact.objectRegister] at hstorage
  rw [cleared, Bytes.read_fill_disjoint hstorage, Bytes.read_write_same]
  rfl

/-- So are the locals. -/
theorem FrameLayout.cleared_storage (hact : Activates T env) (mem : Bytes.Mem) (ho : 0 < o)
    (hframe : T.stack.InFrame o n) :
    Bytes.read (env.layout.cleared mem) (T.stack.byteAddress env.layout o) n = 0 := by
  obtain ⟨hlow, hhigh⟩ := hframe.within hact
  rw [StackFrame.slot, if_neg (by omega)] at hlow hhigh
  exact Bytes.read_fill_zero ⟨hlow, hhigh⟩

/-- **An activation starts** with its arguments in its parameters, and with everything else cleared. -/
theorem prologuePieces_goes {context : FunctionContext} {e e' : EmitState}
    (hsupported : context.scriptFunction.Supported context.engine)
    (hreturned : ∃ ty, toLlvmType context.scriptFunction.returnType = .ok ty) (he : e.out = [])
    (hlocal : Runs (emitAllocateLocalStructures context) e T.stack e') (hact : Activates T env)
    (host : Host) (regs : Regs) (mem : Bytes.Mem) (calls : List Request) :
    ∃ tys stored, (scriptCallSlots context.engine context.scriptFunction).mapM toLlvmType = .ok tys ∧
      runCode env host e'.out ⟨regs, mem, calls⟩ =
        .goes ⟨regs, env.layout.cleared stored, calls⟩ ∧
      HoldsArguments T.stack env (env.layout.cleared stored) (hiddenArguments context.scriptFunction)
        0 (scriptCallSlots context.engine context.scriptFunction) tys := by
  obtain ⟨stack, tys, htys, hruns⟩ := @emitAllocateLocalStructures_runs context e hsupported hreturned
  obtain ⟨rfl, rfl⟩ := hlocal.det hruns
  have hcontext : T.stack.toFunctionContext = context := (emitAllocateLocalStructures_stack hlocal).1
  obtain ⟨slots, hslots⟩ : ∃ slots, scriptCallSlots context.engine context.scriptFunction = slots :=
    ⟨_, rfl⟩
  obtain ⟨i, hi⟩ : ∃ i, hiddenArguments context.scriptFunction = i := ⟨_, rfl⟩
  have hlookup : ∀ (k : ℕ) slot ty, slots[k]? = some slot → tys[k]? = some ty →
      T.stack.parameters.lookup (0 - slotOffset slots k : ℤ) = some ⟨i + k, ty⟩ := by
    intro k slot ty hslot hty
    rw [← hslots] at hslot ⊢
    obtain ⟨hk, rfl⟩ := List.getElem?_eq_some_iff.mp hslot
    obtain ⟨hk', rfl⟩ := List.getElem?_eq_some_iff.mp hty
    rw [Int.zero_sub, ← hi]
    exact emitAllocateLocalStructures_lookup hsupported hlocal hslot
      ((mapM_eq_ok.mp htys).get hk hk')
  obtain ⟨stored, hstorage, hwords, -⟩ := storagePieces_goes host hact i le_rfl
    (fun slot hslot => (hsupported.slots slot (hslots ▸ hslot)).size_pos) hlookup regs mem calls
  have halloca : ∀ slot n mem, (Instr.alloca slot n).exec env regs mem = some (regs, mem) :=
    fun _ _ _ => rfl
  rw [hslots] at htys ⊢
  rw [hi]
  refine ⟨tys, stored, htys, ?_, fun k slot ty hslot hty => ?_⟩
  · rw [EmitState.extend_out, he, List.nil_append, prologuePieces, hslots, hi,
      runCode_step (halloca _ _ _), runCode_step (halloca _ _ _), runCode_step (halloca _ _ _),
      runCode_append, hstorage, ← hcontext]
    exact clearingPieces_goes hact host regs stored calls
  · obtain ⟨hframe, hword⟩ := hwords k slot ty hslot hty
    refine ⟨hframe, ?_⟩
    rw [hframe.slotWord_agrees hact, hword]
    rw [StackFrame.slot, if_pos (by omega)]
    exact FrameLayout.cleared_agrees hact _ stored

end Run

end Asllvm
