import Asllvm.Lib.Bytes
import Asllvm.Lib.Slots
import Asllvm.Effects

/-!
# Script Calls, Slot by Slot

A script call is described three times in the source: `get_script_function_type` builds the
signature, `emit_script_call` pops the arguments, and `allocate_parameter_storage` gives the
callee's parameters their offsets. All three walk the same slots, the hidden ones first
(`scriptCallSlots`), and keep a running offset; this module follows the three walks.

## Main results

* `getScriptFunctionType_eq_ok` — the signature: one type for each slot, after the pointer a
  value is returned through.
* `emitScriptCall_code` — the caller: every slot is loaded from its own place on the stack, at
  the depth its offset says, and passed in order.
* `allocateParameterStorage_code` — the callee: every slot has an alloca at its offset, filled
  from the argument of the same position.
-/

open StateExcept Slots

namespace Asllvm

/-- A function returns a value through its first argument. -/
def ScriptFunction.ReturnsThroughPointer (function : ScriptFunction) : Prop :=
  function.returnType.tokenType ≠ .ttVoid ∧ function.doesReturnOnStack = false

instance (function : ScriptFunction) : Decidable function.ReturnsThroughPointer :=
  inferInstanceAs (Decidable (_ ∧ _))

/-- A function returns through an address the caller has pushed. -/
def ScriptFunction.ReturnsOnStack (function : ScriptFunction) : Prop :=
  function.returnType.tokenType ≠ .ttVoid ∧ function.doesReturnOnStack = true

instance (function : ScriptFunction) : Decidable function.ReturnsOnStack :=
  inferInstanceAs (Decidable (_ ∧ _))

/-- The stack slots of a call: the address to return through, if it is on the stack, the
object, and the parameters. -/
def scriptCallSlots (engine : Engine) (function : ScriptFunction) : List DataType :=
  (if function.ReturnsOnStack then [function.returnType] else []) ++
    ((function.objectType.map engine.objectDataType).toList ++ function.parameterTypes)

/-- The arguments of the implementation that are not on the stack. -/
def hiddenArguments (function : ScriptFunction) : ℕ :=
  if function.ReturnsThroughPointer then 1 else 0

/-- The dwords a list of slots takes. -/
abbrev slotDWords (slots : List DataType) : ℕ := total DataType.sizeOnStackDWords slots

/-- The offset of a slot: the dwords of the slots before it. -/
abbrev slotOffset (slots : List DataType) (k : ℕ) : ℕ := offset DataType.sizeOnStackDWords slots k

/-- **A signature over supported types**: every slot is supported, and so is a value returned
through a pointer, which is a primitive, an object or a handle. -/
structure ScriptFunction.Supported (engine : Engine) (function : ScriptFunction) : Prop where
  slots : ∀ type ∈ scriptCallSlots engine function, type.Supported
  returned : function.ReturnsThroughPointer →
    (function.returnType.isObjectHandle || function.returnType.isObject ||
      function.returnType.isPrimitive) = true

/-- The value `v` is a register that `ps` loads through the address `ptr`. -/
def LoadedFrom (ps : List Piece) (v : Value) (ptr : Operand) : Prop :=
  ∃ r, v.op = .reg r ∧ Piece.instr (.load r v.ty ptr) ∈ ps

theorem LoadedFrom.mono {ps qs : List Piece} {v : Value} {ptr : Operand}
    (h : LoadedFrom ps v ptr) (hsub : ps ⊆ qs) : LoadedFrom qs v ptr := by
  obtain ⟨r, hv, hmem⟩ := h
  exact ⟨r, hv, hsub hmem⟩

/-! ### The signature -/

theorem objectTypes_eq_ok {engine : Engine} {function : ScriptFunction} {types : List Ty}
    (h : objectTypes engine function = .ok types) :
    List.Forall₂ (fun type ty => toLlvmType type = .ok ty)
      (function.objectType.map engine.objectDataType).toList types := by
  unfold objectTypes at h
  cases hobject : function.objectType with
  | none =>
      rw [hobject] at h
      obtain rfl : [] = types := Except.ok.inj h
      exact .nil
  | some objectType =>
      rw [hobject] at h
      obtain ⟨ty, hty, h⟩ := except_bind_ok.mp h
      obtain rfl : [ty] = types := Except.ok.inj h
      exact .cons hty .nil

theorem returnedTypes_eq_ok {function : ScriptFunction} {types : List Ty}
    (h : returnedTypes function = .ok types) :
    ∃ hidden first, types = hidden ++ first ∧ hidden.length = hiddenArguments function ∧
      List.Forall₂ (fun type ty => toLlvmType type = .ok ty)
        (if function.ReturnsOnStack then [function.returnType] else []) first := by
  unfold returnedTypes at h
  split at h
  · rename_i hvoid
    obtain ⟨ty, hty, h⟩ := except_bind_ok.mp h
    obtain rfl := Except.ok.inj h
    cases hstack : function.doesReturnOnStack with
    | true =>
        refine ⟨[], [ty], rfl, ?_, ?_⟩
        · simp [hiddenArguments, ScriptFunction.ReturnsThroughPointer, hstack]
        · simpa [ScriptFunction.ReturnsOnStack, hvoid, hstack] using hty
    | false =>
        refine ⟨[.ptr ty], [], rfl, ?_, ?_⟩
        · simp [hiddenArguments, ScriptFunction.ReturnsThroughPointer, hvoid, hstack]
        · simp [ScriptFunction.ReturnsOnStack, hstack]
  · rename_i hvoid
    obtain rfl := Except.ok.inj h
    refine ⟨[], [], rfl, ?_, ?_⟩
    · simp_all [hiddenArguments, ScriptFunction.ReturnsThroughPointer]
    · simp_all [ScriptFunction.ReturnsOnStack]

/-- The signature has one type for each slot, after the pointer a value is returned through. -/
theorem getScriptFunctionType_eq_ok {engine : Engine} {function : ScriptFunction}
    {types : List Ty} (h : getScriptFunctionType engine function = .ok types) :
    ∃ hidden slots, types = hidden ++ slots ∧ hidden.length = hiddenArguments function ∧
      List.Forall₂ (fun type ty => toLlvmType type = .ok ty) (scriptCallSlots engine function)
        slots := by
  simp only [getScriptFunctionType, except_bind_ok] at h
  obtain ⟨returned, hreturned, object, hobject, parameters, hparameters, h⟩ := h
  obtain rfl : returned ++ object ++ parameters = types := Except.ok.inj h
  obtain ⟨hidden, first, rfl, hlen, hfirst⟩ := returnedTypes_eq_ok hreturned
  have hrest := List.rel_append (objectTypes_eq_ok hobject) (mapM_eq_ok.mp hparameters)
  exact ⟨hidden, first ++ (object ++ parameters), by simp, hlen, List.rel_append hfirst hrest⟩

/-! ### The caller -/

section Caller

variable {stack : StackFrame} {s t u : EmitState} {sp : ℤ} {n m k : ℕ}

/-- The value `v` was popped for a slot of the given type at the offset `o` below the depth
`sp`. -/
def PoppedFrom (stack : StackFrame) (ps : List Piece) (sp : ℤ) (o : ℕ) (type : DataType)
    (v : Value) : Prop :=
  toLlvmType type = .ok v.ty ∧ LoadedFrom ps v (stack.slotAddress (sp - o))

/-- The outcome of popping some slots after `n` dwords have been read from the depth `sp`: the
values, in order, and how many dwords have been read then. -/
structure Popped (stack : StackFrame) (sp : ℤ) (n : ℕ) (slots : List DataType) (s : EmitState)
    (vs : List Value) (m : ℕ) (t : EmitState) : Prop where
  read : m = n + slotDWords slots
  stackPointer : t.stackPointer = sp - m
  values : ∃ ps, t.out = s.out ++ ps ∧
    AtOffsets DataType.sizeOnStackDWords (PoppedFrom stack ps sp) n slots vs

theorem AtOffsets.poppedFrom_mono {ps qs : List Piece} {slots : List DataType}
    {vs : List Value}
    (h : AtOffsets DataType.sizeOnStackDWords (PoppedFrom stack ps sp) n slots vs)
    (hsub : ps ⊆ qs) :
    AtOffsets DataType.sizeOnStackDWords (PoppedFrom stack qs sp) n slots vs :=
  h.imp fun _ _ _ hq => ⟨hq.1, hq.2.mono hsub⟩

theorem Popped.nil (h : s.stackPointer = sp - n) : Popped stack sp n [] s [] n s :=
  ⟨by simp, h, [], by simp, .nil⟩

/-- Popping slots and then more slots is popping all of them. -/
theorem Popped.append {slots slots' : List DataType} {vs vs' : List Value}
    (h : Popped stack sp n slots s vs m t) (h' : Popped stack sp m slots' t vs' k u) :
    Popped stack sp n (slots ++ slots') s (vs ++ vs') k u where
  read := by simp only [h'.read, h.read, slotDWords, total_append, Nat.add_assoc]
  stackPointer := h'.stackPointer
  values := by
    obtain ⟨ps, hout, hps⟩ := h.values
    obtain ⟨qs, hout', hqs⟩ := h'.values
    rw [h.read] at hqs
    exact ⟨ps ++ qs, by rw [hout', hout, List.append_assoc],
      (AtOffsets.poppedFrom_mono hps (List.subset_append_left _ _)).append
        (AtOffsets.poppedFrom_mono hqs (List.subset_append_right _ _))⟩

/-- Code that leaves the stack alone can follow. -/
theorem Popped.extend {slots : List DataType} {vs : List Value} {ps : List Piece} {r : ℕ}
    (h : Popped stack sp n slots s vs m t) : Popped stack sp n slots s vs m (t.extend r ps) where
  read := h.read
  stackPointer := h.stackPointer
  values := by
    obtain ⟨qs, hout, hqs⟩ := h.values
    exact ⟨qs ++ ps, by rw [EmitState.extend_out, hout, List.append_assoc],
      AtOffsets.poppedFrom_mono hqs (List.subset_append_left _ _)⟩

/-- **One pop**: the value is loaded from the depth reached so far. -/
theorem popArgument_popped {type : DataType} {v : Value} (hsp : s.stackPointer = sp - n)
    (h : Runs (popArgument stack none type n) s (v, m) t) : Popped stack sp n [type] s [v] m t := by
  simp only [popArgument, runs_bind, runs_lift, StackFrame.runs_pop, runs_pure,
    Prod.mk.injEq] at h
  obtain ⟨ty, _, ⟨hty, rfl⟩, _, _, ⟨-, rfl, rfl⟩, ⟨rfl, rfl⟩, rfl⟩ := h
  refine ⟨by simp, by simp [hsp]; omega, _, rfl, .cons ⟨hty, _, rfl, ?_⟩ .nil⟩
  simp [hsp]

theorem objectArguments_popped {callee : ScriptFunction} {vs : List Value}
    (hsp : s.stackPointer = sp - n)
    (h : Runs (objectArguments stack none callee n) s (vs, m) t) :
    Popped stack sp n (callee.objectType.map stack.engine.objectDataType).toList s vs m t := by
  unfold objectArguments at h
  cases hobject : callee.objectType with
  | none =>
      rw [hobject] at h
      obtain ⟨⟨rfl, rfl⟩, rfl⟩ := by simpa using h
      exact .nil hsp
  | some objectType =>
      rw [hobject] at h
      simp only [runs_bind, runs_emitCheckNullPointer, runs_pure, Prod.mk.injEq] at h
      obtain ⟨⟨v, k⟩, u, hpop, _, _, rfl, ⟨rfl, rfl⟩, rfl⟩ := h
      exact (popArgument_popped hsp hpop).extend

/-- The parameters are popped one after another, by induction on their list. -/
theorem parameterArguments_popped {types : List DataType} {vs : List Value}
    (hsp : s.stackPointer = sp - n)
    (h : Runs (parameterArguments stack none types n) s (vs, m) t) :
    Popped stack sp n types s vs m t := by
  induction types generalizing n s vs with
  | nil =>
      obtain ⟨⟨rfl, rfl⟩, rfl⟩ := by simpa [parameterArguments] using h
      exact .nil hsp
  | cons type types ih =>
      simp only [parameterArguments, runs_bind, runs_pure, Prod.mk.injEq] at h
      obtain ⟨⟨v, k⟩, u, hpop, ⟨vs', l⟩, w, hrest, ⟨rfl, rfl⟩, rfl⟩ := h
      have hfirst := popArgument_popped hsp hpop
      exact hfirst.append (ih hfirst.stackPointer hrest)

/-- The first arguments: the register a value is returned through, or the popped address. -/
theorem runs_returnArguments {entry : Option VmEntryCallContext} {callee : ScriptFunction}
    {types : List Ty} {vs : List Value} (hsupported : callee.Supported stack.engine)
    (h : Runs (returnArguments stack entry callee types) s (vs, m) t) :
    ∃ hidden first, vs = hidden ++ first ∧
      hidden.map Value.ty = types.take (hiddenArguments callee) ∧
      hidden.length = hiddenArguments callee ∧
      (callee.ReturnsOnStack ∧
          (∃ v, first = [v] ∧ Runs (popArgument stack entry callee.returnType 0) s (v, m) t) ∨
        ¬ callee.ReturnsOnStack ∧ first = [] ∧ m = 0 ∧ t = s) := by
  rw [returnArguments] at h
  by_cases hvoid : callee.returnType.tokenType = .ttVoid
  · obtain ⟨⟨rfl, rfl⟩, rfl⟩ := by simpa [hvoid] using h
    have hhidden : hiddenArguments callee = 0 := by
      simp [hiddenArguments, ScriptFunction.ReturnsThroughPointer, hvoid]
    rw [hhidden]
    exact ⟨[], [], rfl, rfl, rfl, .inr ⟨fun hret => hret.1 hvoid, rfl, rfl, rfl⟩⟩
  · cases hstack : callee.doesReturnOnStack with
    | true =>
        simp only [hvoid, hstack, ne_eq, not_false_eq_true, if_true, runs_bind, runs_pure,
          Prod.mk.injEq] at h
        obtain ⟨⟨v, k⟩, _, hpop, ⟨rfl, rfl⟩, rfl⟩ := h
        have hhidden : hiddenArguments callee = 0 := by
          simp [hiddenArguments, ScriptFunction.ReturnsThroughPointer, hstack]
        rw [hhidden]
        exact ⟨[], [v], rfl, rfl, rfl, .inl ⟨⟨hvoid, hstack⟩, v, rfl, hpop⟩⟩
    | false =>
        have hthrough : callee.ReturnsThroughPointer := ⟨hvoid, hstack⟩
        have hkind := hsupported.returned hthrough
        simp only [hvoid, hstack, ne_eq, not_false_eq_true, if_true, Bool.false_eq_true, if_false,
          runs_bind, runs_elementAt] at h
        obtain ⟨ty, s', ⟨hty, rfl⟩, h⟩ := h
        have hregister : ∃ register, vs = [pointerCast register ty] ∧ m = 0 ∧ t = s' := by
          split at h
          · obtain ⟨⟨rfl, rfl⟩, rfl⟩ := by simpa using h
            exact ⟨_, rfl, rfl, rfl⟩
          · rename_i hobj
            rw [if_pos (by simpa [hobj] using hkind)] at h
            obtain ⟨⟨rfl, rfl⟩, rfl⟩ := by simpa using h
            exact ⟨_, rfl, rfl, rfl⟩
        obtain ⟨register, rfl, rfl, rfl⟩ := hregister
        have hhidden : hiddenArguments callee = 1 := by rw [hiddenArguments, if_pos hthrough]
        have hon : ¬ callee.ReturnsOnStack := fun hret => by simp [hret.2] at hstack
        rw [hhidden]
        refine ⟨[pointerCast register ty], [], rfl, ?_, rfl, .inr ⟨hon, rfl, rfl, rfl⟩⟩
        cases types with
        | nil => simp at hty
        | cons type types => simpa using hty.symm

theorem returnArguments_popped {callee : ScriptFunction} {types : List Ty} {vs : List Value}
    (hsupported : callee.Supported stack.engine) (hsp : s.stackPointer = sp)
    (h : Runs (returnArguments stack none callee types) s (vs, m) t) :
    ∃ hidden first, vs = hidden ++ first ∧
      hidden.map Value.ty = types.take (hiddenArguments callee) ∧
      hidden.length = hiddenArguments callee ∧
      Popped stack sp 0 (if callee.ReturnsOnStack then [callee.returnType] else []) s first m
        t := by
  have hsp0 : s.stackPointer = sp - (0 : ℕ) := by simpa using hsp
  obtain ⟨hidden, first, rfl, hty, hlen, hslot⟩ := runs_returnArguments hsupported h
  refine ⟨hidden, first, rfl, hty, hlen, ?_⟩
  rcases hslot with ⟨hret, v, rfl, hpop⟩ | ⟨hret, rfl, rfl, rfl⟩
  · rw [if_pos hret]
    exact popArgument_popped hsp0 hpop
  · rw [if_neg hret]
    exact .nil hsp0

/-- **The code of a script call**: the hidden argument, if there is one, has its type in the
signature; every slot is popped from its own place on the stack, in order; and the call passes
exactly these arguments. -/
theorem emitScriptCall_code {callee : ScriptFunction} {n : ℕ}
    (hsupported : callee.Supported stack.engine)
    (h : Runs (emitScriptCall stack callee) s n t) :
    ∃ types hidden vs r target ps,
      getScriptFunctionType stack.engine callee = .ok types ∧
      hidden.map Value.ty = types.take (hiddenArguments callee) ∧
      hidden.length = hiddenArguments callee ∧
      t.out = s.out ++ ps ∧
      AtOffsets DataType.sizeOnStackDWords (PoppedFrom stack ps s.stackPointer) 0
        (scriptCallSlots stack.engine callee) vs ∧
      Piece.instr (.call (some r) (.script target) (hidden ++ vs)) ∈ ps ∧
      n = slotDWords (scriptCallSlots stack.engine callee) ∧
      t.stackPointer = s.stackPointer - n := by
  simp only [emitScriptCall, runs_bind, runs_asllvmAssert, runs_lift, runs_createCall_i8,
    runs_emitCheckVmState, runs_pure] at h
  obtain ⟨_, s₀, ⟨-, rfl⟩, types, s₀', ⟨htypes, rfl⟩, target, s₁, htarget, ⟨returned, n₁⟩, s₂,
    hreturned, ⟨object, n₂⟩, s₃, hobject, ⟨parameters, n₃⟩, s₄, hparameters, _, _, ⟨rfl, rfl⟩,
    _, _, rfl, rfl, rfl⟩ := h
  obtain ⟨ps₀, hps₀⟩ := emitted_of_runs htarget
  obtain ⟨hidden, first, rfl, hty, hlen, hfirst⟩ :=
    returnArguments_popped hsupported (stackPointer_of_runs htarget) hreturned
  have hobject' := objectArguments_popped hfirst.stackPointer hobject
  have hparameters' := parameterArguments_popped hobject'.stackPointer hparameters
  have hslots := hfirst.append (hobject'.append hparameters')
  obtain ⟨ps, hps, hvalues⟩ := hslots.values
  have hread : n = 0 + slotDWords (scriptCallSlots stack.engine callee) := hslots.read
  refine ⟨types, hidden, _, s₄.nextReg, target.op,
    ps₀ ++ (ps ++ [.instr (.call (some s₄.nextReg) (.script target.op)
        (hidden ++ (first ++ (object ++ parameters)))),
      .instr (.icmp (s₄.nextReg + 1) .ne .i8 (.reg s₄.nextReg) VmState.Ok.const.op),
      .check (.reg (s₄.nextReg + 1)) (.reg s₄.nextReg)]), htypes, hty, hlen,
    by simp [hps, hps₀.out], AtOffsets.poppedFrom_mono hvalues ?_, by simp, by omega,
    hslots.stackPointer⟩
  exact fun p hp => List.mem_append_right _ (List.mem_append_left _ hp)

end Caller

/-! ### The callee -/

section Callee

variable {config : JitConfig} {types : List Ty} {st st' : ParameterStorage} {s t : EmitState}

/-- The parameter at `offset` is held in an alloca of its LLVM type, which the code `ps` fills
from the argument at `index`. -/
def StoredAt (types : List Ty) (parameters : List (ℤ × Parameter)) (ps : List Piece)
    (offset : ℤ) (index : ℕ) (type : DataType) : Prop :=
  ∃ ty argumentType, toLlvmType type = .ok ty ∧ types[index]? = some argumentType ∧
    parameters.lookup offset = some ⟨index, ty⟩ ∧
    Piece.instr (.alloca (.parameter offset) ty.storeSize) ∈ ps ∧
    Piece.instr (.store argumentType (.arg index) (.frame (.parameter offset) 0)) ∈ ps

/-- One parameter: it takes the next offset and the next argument. -/
theorem runs_allocateParameter {type : DataType}
    (h : Runs (allocateParameter config types st type) s st' t)
    (hnew : st.parameters.lookup st.stackOffset = none) :
    ∃ ty argumentType, toLlvmType type = .ok ty ∧
      types[st.argumentIt]? = some argumentType ∧
      st' = ⟨st.stackOffset - type.sizeOnStackDWords, st.argumentIt + 1,
        (st.stackOffset, ⟨st.argumentIt, ty⟩) :: st.parameters⟩ ∧
      t = s.extend 0 [.instr (.alloca (.parameter st.stackOffset) ty.storeSize),
        .instr (.store argumentType (.arg st.argumentIt)
          (.frame (.parameter st.stackOffset) 0))] := by
  simp only [allocateParameter, hnew, runs_bind, runs_lift, runs_emitInstr, runs_asllvmAssert,
    runs_elementAt, runs_createStore, runs_pure, Option.isNone_none, if_true] at h
  obtain ⟨ty, s₀, ⟨hty, rfl⟩, _, _, rfl, _, s₁, ⟨-, rfl⟩, argumentType, s₂, ⟨harg, rfl⟩, _, _,
    rfl, rfl, rfl⟩ := h
  exact ⟨ty, argumentType, hty, harg, rfl, by simp⟩

/-- **The parameters of a frame**, by induction on the slots: the offsets go down by the size of
each slot, so they never meet one that is taken. -/
theorem foldlM_allocateParameter (slots : List DataType)
    (hpos : ∀ type ∈ slots, 0 < type.sizeOnStackDWords)
    (hkeys : ∀ o ≤ st.stackOffset, st.parameters.lookup o = none)
    (h : Runs (slots.foldlM (allocateParameter config types) st) s st' t) :
    ∃ ps, t = s.extend 0 ps ∧
      (∀ o, st.stackOffset < o → st'.parameters.lookup o = st.parameters.lookup o) ∧
      (∀ o < st.stackOffset - slotDWords slots + 1, st'.parameters.lookup o = none) ∧
      ∀ k type, slots[k]? = some type → StoredAt types st'.parameters ps
        (st.stackOffset - slotOffset slots k) (st.argumentIt + k) type := by
  induction slots generalizing st s with
  | nil =>
      obtain ⟨rfl, rfl⟩ := runs_foldlM_nil.mp h
      exact ⟨[], by simp, fun _ _ => rfl, fun o ho => hkeys o (by simp at ho; omega),
        fun k type hk => by simp at hk⟩
  | cons type slots ih =>
      obtain ⟨st₁, s₁, hfirst, hrest⟩ := runs_foldlM_cons.mp h
      obtain ⟨ty, argumentType, hty, harg, rfl, rfl⟩ :=
        runs_allocateParameter hfirst (hkeys _ (le_refl _))
      have hsize := hpos type List.mem_cons_self
      obtain ⟨ps, rfl, hkept, hfree, hslots⟩ := ih
        (fun type' h' => hpos type' (List.mem_cons_of_mem _ h'))
        (fun o ho => by
          simp only at ho
          rw [List.lookup_cons, show (o == st.stackOffset) = false by simp; omega]
          exact hkeys o (by omega)) hrest
      simp only at hkept hfree hslots
      have hhere : st'.parameters.lookup st.stackOffset = some ⟨st.argumentIt, ty⟩ := by
        rw [hkept _ (by omega), List.lookup_cons_self]
      refine ⟨_, EmitState.extend_extend _ _ _ _ _, ?_, ?_, ?_⟩
      · intro o ho
        rw [hkept o (by omega), List.lookup_cons, show (o == st.stackOffset) = false by simp; omega]
      · intro o ho
        refine hfree o ?_
        simp only [slotDWords, total_cons] at ho ⊢
        push_cast at ho
        omega
      · intro k type' hk
        cases k with
        | zero =>
            obtain rfl : type = type' := by simpa using hk
            refine ⟨ty, argumentType, hty, by simpa using harg, by simpa using hhere, ?_, ?_⟩ <;>
              simp
        | succ k =>
            obtain ⟨ty', arg', hty', harg', hlookup, halloca, hstore⟩ :=
              hslots k type' (by simpa using hk)
            have hoffset : st.stackOffset - slotOffset (type :: slots) (k + 1) =
                st.stackOffset - type.sizeOnStackDWords - slotOffset slots k := by
              simp only [slotOffset, offset_cons_succ]
              push_cast
              omega
            have hindex : st.argumentIt + (k + 1) = st.argumentIt + 1 + k := by omega
            rw [hoffset, hindex]
            exact ⟨ty', arg', hty', harg', hlookup, List.mem_append_right _ halloca,
              List.mem_append_right _ hstore⟩

/-- The returned address is a slot like the others, if it takes one. -/
theorem runs_allocateReturned {function : ScriptFunction} :
    Runs (allocateReturned config types function ⟨0, 0, []⟩) s st t ↔
      Runs ((if function.ReturnsOnStack then [function.returnType] else []).foldlM
        (allocateParameter config types) ⟨0, hiddenArguments function, []⟩) s st t := by
  unfold allocateReturned
  by_cases hvoid : function.returnType.tokenType = .ttVoid <;>
    cases hstack : function.doesReturnOnStack <;>
    simp [hvoid, hstack, hiddenArguments, ScriptFunction.ReturnsOnStack,
      ScriptFunction.ReturnsThroughPointer]

/-- The walk of `allocate_parameter_storage` is one over the slots of a call. -/
theorem runs_allocateParameterStorage {context : FunctionContext}
    {parameters : List (ℤ × Parameter)} :
    Runs (allocateParameterStorage context) s parameters t ↔
      ∃ types st, getScriptFunctionType context.engine context.scriptFunction = .ok types ∧
      parameters = st.parameters ∧
      Runs ((scriptCallSlots context.engine context.scriptFunction).foldlM
        (allocateParameter context.config types)
        ⟨0, hiddenArguments context.scriptFunction, []⟩) s st t := by
  simp only [allocateParameterStorage, runs_bind, runs_lift, runs_pure, scriptCallSlots,
    runs_foldlM_append, runs_allocateReturned]
  constructor
  · rintro ⟨types, _, ⟨htypes, rfl⟩, st₁, s₁, hreturned, st₂, s₂, hobject, st₃, s₃, hparameters,
      rfl, rfl⟩
    exact ⟨types, st₃, htypes, rfl, st₁, s₁, hreturned, st₂, s₂, hobject, hparameters⟩
  · rintro ⟨types, st₃, htypes, rfl, st₁, s₁, hreturned, st₂, s₂, hobject, hparameters⟩
    exact ⟨types, s, ⟨htypes, rfl⟩, st₁, s₁, hreturned, st₂, s₂, hobject, st₃, t, hparameters,
      rfl, rfl⟩

/-- **The code of a callee's parameters**: every slot has an alloca at its offset, filled from
the argument at its position. -/
theorem allocateParameterStorage_code {context : FunctionContext}
    {parameters : List (ℤ × Parameter)}
    (hsupported : context.scriptFunction.Supported context.engine)
    (h : Runs (allocateParameterStorage context) s parameters t) :
    ∃ types ps, getScriptFunctionType context.engine context.scriptFunction = .ok types ∧
      t = s.extend 0 ps ∧
      ∀ k type, (scriptCallSlots context.engine context.scriptFunction)[k]? = some type →
        StoredAt types parameters ps
          (-slotOffset (scriptCallSlots context.engine context.scriptFunction) k)
          (hiddenArguments context.scriptFunction + k) type := by
  obtain ⟨types, st, htypes, rfl, hfold⟩ := runs_allocateParameterStorage.mp h
  obtain ⟨ps, hout, -, -, hslots⟩ := foldlM_allocateParameter _
    (fun type htype => (hsupported.slots type htype).size_pos) (fun _ _ => rfl) hfold
  refine ⟨types, ps, htypes, hout, fun k type hk => ?_⟩
  simpa using hslots k type hk

end Callee

end Asllvm
