import Asllvm.CallFrames

/-!
# System Calls

`emit_system_call` takes the arguments of a native function off the stack. AngelScript pushes
the parameters last to first, then the address to return through, then the object; the code
pops the return address before its argument loop or inside it, and the loop places what it pops
by three indices. Here the loop is run symbolically, convention by convention.

Two combinations go wrong. An `ICC_CDECL` function whose host returns in memory never has its
return address popped, so every parameter is shifted and the loop asks for a parameter past the
last one. A method that returns on the stack, but not in host memory, has its return address
popped before its object, while the object is on top.

## Main results

* `popParams_runs` — the parameters that are left are popped in order into consecutive
  arguments.
* `emitSystemCall_runs` — a whole call: every slot is popped into a register of its own.
* `emitSystemCall_marshals_iff` — the call marshals its arguments as AngelScript laid them out
  iff neither of the two combinations is there and all slots are temporaries.
-/

open StateExcept Slots

namespace Asllvm

/-- The convention passes an object. -/
def CallConv.hasObject : CallConv → Bool
  | .ICC_THISCALL | .ICC_VIRTUAL_THISCALL | .ICC_CDECL_OBJFIRST | .ICC_CDECL_OBJLAST => true
  | .ICC_CDECL | .ICC_OTHER => false

namespace ScriptFunction

variable (function : ScriptFunction)

/-- The dwords of the object on top of the stack. -/
def objectDWords : ℕ := if function.sysFuncIntf.callConv.hasObject then asPtrSize else 0

/-- The dwords of the return address below the object. -/
def returnDWords : ℕ := if function.doesReturnOnStack then asPtrSize else 0

/-- The position of the object among the native arguments: after the return address if that
comes first, or last. -/
def objectPosition : ℕ :=
  if function.sysFuncIntf.callConv = .ICC_CDECL_OBJLAST then
    (if function.sysFuncIntf.hostReturnInMemory then 1 else 0) + function.parameterTypes.length
  else if function.sysFuncIntf.hostReturnInMemory then 1 else 0

/-- The position of the first parameter among the native arguments. -/
def parameterPosition : ℕ :=
  (if function.sysFuncIntf.hostReturnInMemory then 1 else 0) +
    if function.sysFuncIntf.callConv.hasObject ∧
      function.sysFuncIntf.callConv ≠ .ICC_CDECL_OBJLAST then 1 else 0

/-- The dwords of all that is pushed for the call. -/
def systemCallDWords : ℕ :=
  function.objectDWords + function.returnDWords + slotDWords function.parameterTypes

end ScriptFunction

/-- The arguments of the native calls among some pieces. -/
def nativeCalls (ps : List Piece) : List (List Value) :=
  ps.filterMap fun
    | .instr (.call _ (.system _) args) => some args
    | _ => none

/-- Some pieces **store the result** of the native call of `args` through `pointer`: the register
that this call defines is stored at the type `ty` after the call. -/
def StoresResult (ps : List Piece) (args : List Value) (ty : Ty) (pointer : Operand) : Prop :=
  ∃ r target before after,
    ps = before ++ .instr (.call (some r) (.system target) args) :: after ∧
    Piece.instr (.store ty (.reg r) pointer) ∈ after

/-- **A system call marshals its arguments as AngelScript laid them out** below the depth of `s`:
the object, the return address, the parameters first to last; each goes to its own native
position, and the stack pointer drops by the dwords of all of them. -/
structure Marshals (stack : StackFrame) (function : ScriptFunction) (s t : EmitState)
    (ps : List Piece) (args : List Value) : Prop where
  out : t.out = s.out ++ ps
  registers : (definedRegisters ps).Nodup
  call : nativeCalls ps = [args]
  object : function.sysFuncIntf.callConv.hasObject = true →
    ∃ v, args[function.objectPosition]? = some v ∧
      LoadedFrom ps v (stack.slotAddress s.stackPointer)
  /-- The return address is the first argument, or what the result of this call is stored through,
  at the return type; a function that returns `void` has no result. -/
  returned : function.doesReturnOnStack = true → ∃ v,
    LoadedFrom ps v (stack.slotAddress (s.stackPointer - function.objectDWords)) ∧
    if function.sysFuncIntf.hostReturnInMemory then args[0]? = some v
    else ∃ ty, toLlvmType function.returnType = .ok ty ∧ v.ty = .ptr ty ∧
      (ty ≠ .void → StoresResult ps args ty v.op)
  parameters : ∀ k type, function.parameterTypes[k]? = some type →
    ∃ v, args[function.parameterPosition + k]? = some v ∧ toLlvmType type = .ok v.ty ∧
      LoadedFrom ps v (stack.slotAddress (s.stackPointer - (function.objectDWords +
        function.returnDWords + slotOffset function.parameterTypes k)))
  stackPointer : t.stackPointer = s.stackPointer - function.systemCallDWords

theorem StoresResult.append_left {ps : List Piece} {args : List Value} {ty : Ty}
    {pointer : Operand} (h : StoresResult ps args ty pointer) (qs : List Piece) :
    StoresResult (qs ++ ps) args ty pointer := by
  obtain ⟨r, target, before, after, rfl, hstore⟩ := h
  exact ⟨r, target, qs ++ before, after, (List.append_assoc ..).symm, hstore⟩

/-! ### Popping slots -/

/-- The values of consecutive loads at the given types, into the registers from `r` on. -/
def loadedValues : ℕ → List Ty → List Value
  | _, [] => []
  | r, ty :: types => ⟨.reg r, ty⟩ :: loadedValues (r + 1) types

/-- The loads that pop slots from the depth `sp` on. -/
def popPieces (stack : StackFrame) : ℕ → ℤ → List DataType → List Ty → List Piece
  | r, sp, slot :: slots, ty :: types =>
      .instr (.load r ty (stack.slotAddress sp)) ::
        popPieces stack (r + 1) (sp - slot.sizeOnStackDWords) slots types
  | _, _, _, _ => []

/-- The state after popping some dwords as a value of type `ty`. -/
def afterPop (stack : StackFrame) (s : EmitState) (dwords : ℕ) (ty : Ty) : EmitState :=
  (s.move (-dwords)).extend 1 [.instr (.load s.nextReg ty (stack.slotAddress s.stackPointer))]

/-- The state after popping some slots. -/
def afterPops (stack : StackFrame) (s : EmitState) (slots : List DataType) (types : List Ty) :
    EmitState :=
  (s.move (-(slotDWords slots : ℕ))).extend slots.length
    (popPieces stack s.nextReg s.stackPointer slots types)

/-- Some slots lie on the stack, from the depth `sp` down. -/
structure OnStack (stack : StackFrame) (slots : List DataType) (sp : ℤ) : Prop where
  sizes : ∀ type ∈ slots, 0 < type.sizeOnStackDWords
  nonneg : 0 ≤ sp - slotDWords slots
  bound : sp ≤ stack.totalSpace

/-- Some slots can be popped, from the depth `sp` on: each lies at an offset that the frame knows. -/
def Poppable (stack : StackFrame) (slots : List DataType) (sp : ℤ) : Prop :=
  ∀ (k : ℕ) slot, slots[k]? = some slot → stack.Addressable (sp - slotOffset slots k)

@[simp] theorem objectOf_sizeOnStackDWords (typeId : ℤ) :
    (DataType.objectOf typeId).sizeOnStackDWords = asPtrSize := rfl

section Pops

variable {stack : StackFrame} {function : ScriptFunction} {paramTypes types : List Ty} {ty : Ty}
  {s : EmitState} {slot : DataType} {slots : List DataType} {sp : ℤ}

theorem OnStack.tail (h : OnStack stack (slot :: slots) sp) :
    OnStack stack slots (sp - slot.sizeOnStackDWords) where
  sizes type htype := h.sizes type (List.mem_cons_of_mem _ htype)
  nonneg := by
    have := h.nonneg
    simp only [slotDWords, total_cons, Nat.cast_add] at this ⊢
    omega
  bound := by
    have := h.bound
    omega

/-- The top slot is addressable. -/
theorem OnStack.addressable (h : OnStack stack (slot :: slots) sp) : stack.Addressable sp := by
  have hsize := h.sizes slot List.mem_cons_self
  have hnonneg := h.nonneg
  simp only [slotDWords, total_cons, Nat.cast_add] at hnonneg
  rw [StackFrame.Addressable, if_neg (by omega)]
  exact fun _ => h.bound

/-- Slots on the stack can be popped. -/
theorem OnStack.poppable (h : OnStack stack slots sp) : Poppable stack slots sp := by
  intro k slot hslot
  induction slots generalizing sp k with
  | nil => simp at hslot
  | cons first slots ih =>
      cases k with
      | zero =>
          rw [slotOffset, offset_zero, Nat.cast_zero, Int.sub_zero]
          exact h.addressable
      | succ k =>
          have hrest := ih h.tail k (by simpa using hslot)
          rw [slotOffset, offset_cons_succ, Nat.cast_add, ← Int.sub_sub]
          exact hrest

theorem Poppable.tail (h : Poppable stack (slot :: slots) sp) :
    Poppable stack slots (sp - slot.sizeOnStackDWords) := by
  intro k slot' hslot
  have hrest := h (k + 1) slot' (by simpa using hslot)
  rwa [slotOffset, offset_cons_succ, Nat.cast_add, ← Int.sub_sub] at hrest

/-- The first slot is addressable. -/
theorem Poppable.addressable (h : Poppable stack (slot :: slots) sp) : stack.Addressable sp := by
  have hfirst := h 0 slot rfl
  rwa [slotOffset, offset_zero, Nat.cast_zero, Int.sub_zero] at hfirst

@[simp] theorem afterPop_nextReg (n : ℕ) : (afterPop stack s n ty).nextReg = s.nextReg + 1 := rfl

@[simp] theorem afterPop_stackPointer (n : ℕ) :
    (afterPop stack s n ty).stackPointer = s.stackPointer - n := rfl

theorem pop_runs {n : ℕ} (haddr : stack.Addressable s.stackPointer) :
    Runs (stack.pop n ty) s ⟨.reg s.nextReg, ty⟩ (afterPop stack s n ty) :=
  (StackFrame.runs_pop stack).mpr ⟨haddr, rfl, rfl⟩

/-- Popping one slot and then some more is popping all of them. -/
theorem afterPops_cons :
    afterPops stack (afterPop stack s slot.sizeOnStackDWords ty) slots types =
      afterPops stack s (slot :: slots) (ty :: types) := by
  simp [afterPops, afterPop, popPieces, Nat.add_comm 1, Int.sub_eq_add_neg, Int.add_comm]

/-- One parameter is popped into the next argument. -/
theorem popParam_runs {pre post : List (Option Value)} {j : ℕ} {object : Option Value}
    (hslot : function.parameterTypes[j]? = some slot) (hty : paramTypes[pre.length]? = some ty)
    (haddr : stack.Addressable s.stackPointer) :
    Runs (popParam stack function paramTypes ⟨pre ++ none :: post, pre.length, j, object⟩) s
      ⟨pre ++ some ⟨.reg s.nextReg, ty⟩ :: post, pre.length + 1, j + 1, object⟩
      (afterPop stack s slot.sizeOnStackDWords ty) := by
  simp [popParam, hslot, hty, haddr, afterPop, and_assoc]

/-- **The parameters that are left are popped in order** into consecutive arguments, by induction
on how many there are; the indices of the loop do not matter any more. -/
theorem popParams_runs (slots : List DataType) {types : List Ty} {is : List ℕ}
    {pre post : List (Option Value)} {j : ℕ} {object : Option Value}
    (his : is.length = slots.length) (hlen : types.length = slots.length)
    (hslots : ∀ k type, slots[k]? = some type → function.parameterTypes[j + k]? = some type)
    (htypes : ∀ k ty, types[k]? = some ty → paramTypes[pre.length + k]? = some ty)
    (hstack : Poppable stack slots s.stackPointer) :
    Runs (is.foldlM (fun st _ => popParam stack function paramTypes st)
        ⟨pre ++ (List.replicate slots.length none ++ post), pre.length, j, object⟩) s
      ⟨pre ++ ((loadedValues s.nextReg types).map some ++ post), pre.length + slots.length,
        j + slots.length, object⟩ (afterPops stack s slots types) := by
  induction slots generalizing types is pre j s with
  | nil =>
      obtain rfl := List.length_eq_zero_iff.mp his
      obtain rfl := List.length_eq_zero_iff.mp hlen
      simp [loadedValues, afterPops, popPieces]
  | cons slot slots ih =>
      obtain ⟨a, is, rfl⟩ := List.exists_cons_of_length_eq_add_one his
      obtain ⟨ty, types, rfl⟩ := List.exists_cons_of_length_eq_add_one hlen
      have hfirst : Runs (popParam stack function paramTypes
          ⟨pre ++ none :: (List.replicate slots.length none ++ post), pre.length, j, object⟩) s _ _ :=
        popParam_runs (by simpa using hslots 0 slot rfl) (by simpa using htypes 0 ty rfl)
          hstack.addressable
      have hrest := @ih (afterPop stack s slot.sizeOnStackDWords ty) types is
        (pre ++ [some ⟨.reg s.nextReg, ty⟩]) (j + 1)
        (by simpa using his) (by simpa using hlen)
        (fun k type hk => by
          have := hslots (k + 1) type (by simpa using hk)
          rwa [Nat.add_comm k, ← Nat.add_assoc] at this)
        (fun k ty' hk => by
          have := htypes (k + 1) ty' (by simpa using hk)
          rw [List.length_append, List.length_singleton]
          rwa [Nat.add_comm k, ← Nat.add_assoc] at this)
        hstack.tail
      rw [afterPops_cons] at hrest
      refine runs_foldlM_cons.mpr ⟨_, _, hfirst, ?_⟩
      simpa [loadedValues, Nat.add_assoc, Nat.add_comm 1] using hrest

@[simp]
theorem loadedValues_length (r : ℕ) (types : List Ty) :
    (loadedValues r types).length = types.length := by
  induction types generalizing r with
  | nil => rfl
  | cons ty types ih => simp [loadedValues, ih]

theorem loadedValues_get {r k : ℕ} {types : List Ty} {ty : Ty} (hk : types[k]? = some ty) :
    (loadedValues r types)[k]? = some ⟨.reg (r + k), ty⟩ := by
  induction types generalizing r k with
  | nil => simp at hk
  | cons ty' types ih =>
      cases k with
      | zero => simpa [loadedValues] using hk
      | succ k =>
          rw [loadedValues, List.getElem?_cons_succ, ih (by simpa using hk)]
          simp [Nat.add_assoc, Nat.add_comm 1]

/-- The `k`-th load is at the offset of the `k`-th slot. -/
theorem mem_popPieces {r k : ℕ} {sp : ℤ} {slots : List DataType} {types : List Ty}
    {slot : DataType} {ty : Ty} (hslot : slots[k]? = some slot) (hk : types[k]? = some ty) :
    Piece.instr (.load (r + k) ty (stack.slotAddress (sp - slotOffset slots k))) ∈
      popPieces stack r sp slots types := by
  induction slots generalizing types r k sp with
  | nil => simp at hslot
  | cons slot' slots ih =>
      cases types with
      | nil => simp at hk
      | cons ty' types =>
          cases k with
          | zero =>
              obtain rfl : ty' = ty := by simpa using hk
              simp [popPieces]
          | succ k =>
              have := @ih (r + 1) k (sp - slot'.sizeOnStackDWords) types (by simpa using hslot)
                (by simpa using hk)
              rw [popPieces, slotOffset, offset_cons_succ, ← Nat.add_assoc, Nat.add_right_comm]
              push_cast
              rw [← Int.sub_sub]
              exact List.mem_cons_of_mem _ this

@[simp]
theorem nativeCalls_append (ps qs : List Piece) :
    nativeCalls (ps ++ qs) = nativeCalls ps ++ nativeCalls qs :=
  List.filterMap_append

@[simp]
theorem nativeCalls_popPieces (r : ℕ) (sp : ℤ) (slots : List DataType) (types : List Ty) :
    nativeCalls (popPieces stack r sp slots types) = [] := by
  induction slots generalizing r sp types with
  | nil => rfl
  | cons slot slots ih =>
      cases types with
      | nil => rfl
      | cons ty types =>
          change nativeCalls (popPieces stack (r + 1) _ slots types) = []
          exact ih _ _ _

end Pops

/-! ### The argument loop -/

/-- The conventions that pass the object before the parameters. -/
def CallConv.objectFirst : CallConv → Bool
  | .ICC_THISCALL | .ICC_VIRTUAL_THISCALL | .ICC_CDECL_OBJFIRST => true
  | .ICC_CDECL_OBJLAST | .ICC_CDECL | .ICC_OTHER => false

/-- A hidden slot holds a pointer. -/
abbrev pointerSlot : DataType := .objectOf 0

section Arguments

variable {stack : StackFrame} {function : ScriptFunction} {s : EmitState} {types : List Ty}
  {ty : Ty}

/-- The object is popped into its argument. -/
theorem popObject_runs {paramTypes : List Ty} {st : SystemCallArguments} {i : ℕ}
    (hty : paramTypes[i]? = some ty) (haddr : stack.Addressable s.stackPointer) :
    Runs (popObject stack paramTypes i st) s
      { st with
        args := st.args.set i (some ⟨.reg s.nextReg, ty⟩)
        object := some ⟨.reg s.nextReg, ty⟩ } (afterPop stack s asPtrSize ty) := by
  simp [popObject, hty, haddr, afterPop, and_assoc]

/-- The return address is popped into the first argument. -/
theorem popSretPointer_runs {paramTypes : List Ty} {st : SystemCallArguments}
    (hty : paramTypes[0]? = some ty) (haddr : stack.Addressable s.stackPointer) :
    Runs (popSretPointer stack paramTypes st) s
      { st with args := st.args.set 0 (some ⟨.reg s.nextReg, ty⟩) }
      (afterPop stack s asPtrSize ty) := by
  simp [popSretPointer, hty, haddr, afterPop, and_assoc]

/-- All parameters are popped, after the hidden arguments in `pre`. -/
theorem popAllParams_runs {f : SystemCallArguments → ℕ → EmitM SystemCallArguments}
    {pre post : List (Option Value)} {paramTypes : List Ty} {is : List ℕ} {object : Option Value}
    (hf : ∀ i ∈ is, ∀ st, f st i = popParam stack function paramTypes st)
    (his : is.length = function.parameterTypes.length)
    (hlen : types.length = function.parameterTypes.length)
    (htypes : ∀ k ty, types[k]? = some ty → paramTypes[pre.length + k]? = some ty)
    (hstack : Poppable stack function.parameterTypes s.stackPointer) :
    Runs (is.foldlM f
        ⟨pre ++ (List.replicate function.parameterTypes.length none ++ post), pre.length, 0,
          object⟩) s
      ⟨pre ++ ((loadedValues s.nextReg types).map some ++ post),
        pre.length + function.parameterTypes.length, function.parameterTypes.length, object⟩
      (afterPops stack s function.parameterTypes types) := by
  rw [runs_foldlM_congr hf]
  have hslots : ∀ k type, function.parameterTypes[k]? = some type →
      function.parameterTypes[0 + k]? = some type := fun k type hk => by rwa [Nat.zero_add]
  simpa using popParams_runs function.parameterTypes his hlen hslots htypes hstack

/-- One iteration of the loop, when the object comes first. -/
theorem systemCallArgument_objectFirst (hconv : function.sysFuncIntf.callConv.objectFirst = true)
    (paramTypes : List Ty) (st : SystemCallArguments) (i : ℕ) :
    systemCallArgument stack function paramTypes st i =
      if function.sysFuncIntf.hostReturnInMemory then
        if i = 0 then popObject stack paramTypes 1 st
        else if i = 1 then do
          let st ← popSretPointer stack paramTypes st
          pure { st with insertIndex := 2 }
        else popParam stack function paramTypes st
      else if i = 0 then do
        let st ← popObject stack paramTypes 0 st
        pure { st with insertIndex := 1 }
      else popParam stack function paramTypes st := by
  unfold systemCallArgument
  dsimp only
  cases hc : function.sysFuncIntf.callConv <;> rw [hc] at hconv <;>
    first | rfl | exact absurd hconv Bool.false_ne_true

/-- The object, the return address and the parameters. -/
theorem objectFirst_mem_runs (hconv : function.sysFuncIntf.callConv.objectFirst = true)
    (hmem : function.sysFuncIntf.hostReturnInMemory = true)
    (hlen : types.length = function.parameterTypes.length)
    (hstack : Poppable stack (pointerSlot :: pointerSlot :: function.parameterTypes)
      s.stackPointer) :
    Runs (systemCallArguments stack function (.pvoid :: ty :: types)) s
      ⟨(⟨.reg (s.nextReg + 1), .pvoid⟩ :: ⟨.reg s.nextReg, ty⟩ ::
          loadedValues (s.nextReg + 2) types).map some, 2 + function.parameterTypes.length,
        function.parameterTypes.length, some ⟨.reg s.nextReg, ty⟩⟩
      (afterPops stack s (pointerSlot :: pointerSlot :: function.parameterTypes)
        (ty :: .pvoid :: types)) := by
  have hrange : List.range (Ty.pvoid :: ty :: types).length =
      0 :: 1 :: List.range' 2 types.length := by
    simp [List.range_eq_range', List.range'_succ]
  have hobject : Runs (systemCallArgument stack function (.pvoid :: ty :: types)
      ⟨none :: none :: List.replicate types.length none, 0, 0, none⟩ 0) s
      ⟨none :: some ⟨.reg s.nextReg, ty⟩ :: List.replicate types.length none, 0, 0,
        some ⟨.reg s.nextReg, ty⟩⟩ (afterPop stack s asPtrSize ty) := by
    rw [systemCallArgument_objectFirst hconv, if_pos hmem, if_pos rfl]
    exact popObject_runs rfl hstack.addressable
  have hreturn : Runs (systemCallArgument stack function (.pvoid :: ty :: types)
      ⟨none :: some ⟨.reg s.nextReg, ty⟩ :: List.replicate types.length none, 0, 0,
        some ⟨.reg s.nextReg, ty⟩⟩ 1) (afterPop stack s asPtrSize ty)
      ⟨some ⟨.reg (s.nextReg + 1), .pvoid⟩ :: some ⟨.reg s.nextReg, ty⟩ ::
        List.replicate types.length none, 2, 0, some ⟨.reg s.nextReg, ty⟩⟩
      (afterPop stack (afterPop stack s asPtrSize ty) asPtrSize .pvoid) := by
    rw [systemCallArgument_objectFirst hconv, if_pos hmem, if_neg (by omega), if_pos rfl]
    exact runs_bind.mpr ⟨_, _, popSretPointer_runs rfl hstack.tail.addressable,
      runs_pure.mpr ⟨rfl, rfl⟩⟩
  have hparams := @popAllParams_runs stack function
    (afterPop stack (afterPop stack s asPtrSize ty) asPtrSize .pvoid) types
    (systemCallArgument stack function (.pvoid :: ty :: types))
    [some ⟨.reg (s.nextReg + 1), .pvoid⟩, some ⟨.reg s.nextReg, ty⟩] [] (.pvoid :: ty :: types)
    (List.range' 2 types.length) (some ⟨.reg s.nextReg, ty⟩)
    (fun i hi st => by
      have hi2 : 2 ≤ i := (List.mem_range'_1.mp hi).1
      rw [systemCallArgument_objectFirst hconv, if_pos hmem, if_neg (by omega),
        if_neg (by omega)])
    (by simpa using hlen) hlen (fun k ty' hk => by simpa [Nat.add_comm 2] using hk)
    hstack.tail.tail
  rw [systemCallArguments, hrange]
  refine runs_foldlM_cons.mpr ⟨_, _, hobject, runs_foldlM_cons.mpr ⟨_, _, hreturn, ?_⟩⟩
  simpa [hlen, ← afterPops_cons, Nat.add_assoc] using hparams

/-- The object and the parameters. -/
theorem objectFirst_runs (hconv : function.sysFuncIntf.callConv.objectFirst = true)
    (hmem : function.sysFuncIntf.hostReturnInMemory = false)
    (hlen : types.length = function.parameterTypes.length)
    (hstack : Poppable stack (pointerSlot :: function.parameterTypes) s.stackPointer) :
    Runs (systemCallArguments stack function (.pvoid :: types)) s
      ⟨(⟨.reg s.nextReg, .pvoid⟩ :: loadedValues (s.nextReg + 1) types).map some,
        1 + function.parameterTypes.length, function.parameterTypes.length,
        some ⟨.reg s.nextReg, .pvoid⟩⟩
      (afterPops stack s (pointerSlot :: function.parameterTypes) (.pvoid :: types)) := by
  have hnot : ¬ function.sysFuncIntf.hostReturnInMemory = true := by simp [hmem]
  have hrange : List.range (Ty.pvoid :: types).length = 0 :: List.range' 1 types.length := by
    simp [List.range_eq_range', List.range'_succ]
  have hobject : Runs (systemCallArgument stack function (.pvoid :: types)
      ⟨none :: List.replicate types.length none, 0, 0, none⟩ 0) s
      ⟨some ⟨.reg s.nextReg, .pvoid⟩ :: List.replicate types.length none, 1, 0,
        some ⟨.reg s.nextReg, .pvoid⟩⟩ (afterPop stack s asPtrSize .pvoid) := by
    rw [systemCallArgument_objectFirst hconv, if_neg hnot, if_pos rfl]
    exact runs_bind.mpr ⟨_, _, popObject_runs rfl hstack.addressable, runs_pure.mpr ⟨rfl, rfl⟩⟩
  have hparams := @popAllParams_runs stack function (afterPop stack s asPtrSize .pvoid) types
    (systemCallArgument stack function (.pvoid :: types)) [some ⟨.reg s.nextReg, .pvoid⟩] []
    (.pvoid :: types) (List.range' 1 types.length) (some ⟨.reg s.nextReg, .pvoid⟩)
    (fun i hi st => by
      have hi1 : 1 ≤ i := (List.mem_range'_1.mp hi).1
      rw [systemCallArgument_objectFirst hconv, if_neg hnot, if_neg (by omega)])
    (by simpa using hlen) hlen (fun k ty' hk => by simpa [Nat.add_comm 1] using hk) hstack.tail
  rw [systemCallArguments, hrange]
  refine runs_foldlM_cons.mpr ⟨_, _, hobject, ?_⟩
  simpa [hlen, ← afterPops_cons] using hparams

/-- One iteration of the loop, when the object comes last. -/
theorem systemCallArgument_objectLast (hconv : function.sysFuncIntf.callConv = .ICC_CDECL_OBJLAST)
    (paramTypes : List Ty) (st : SystemCallArguments) (i : ℕ) :
    systemCallArgument stack function paramTypes st i =
      if i = 0 then popObject stack paramTypes (paramTypes.length - 1) st
      else if function.sysFuncIntf.hostReturnInMemory && i == 1 then do
        let st ← popSretPointer stack paramTypes st
        pure { st with insertIndex := 1 }
      else popParam stack function paramTypes st := by
  unfold systemCallArgument
  dsimp only
  rw [hconv]

/-- The object, the return address and the parameters, the object passed last. -/
theorem objectLast_mem_runs (hconv : function.sysFuncIntf.callConv = .ICC_CDECL_OBJLAST)
    (hmem : function.sysFuncIntf.hostReturnInMemory = true)
    (hlen : types.length = function.parameterTypes.length)
    (hstack : Poppable stack (pointerSlot :: pointerSlot :: function.parameterTypes)
      s.stackPointer) :
    Runs (systemCallArguments stack function (ty :: (types ++ [.pvoid]))) s
      ⟨(⟨.reg (s.nextReg + 1), ty⟩ ::
          (loadedValues (s.nextReg + 2) types ++ [⟨.reg s.nextReg, .pvoid⟩])).map some,
        1 + function.parameterTypes.length, function.parameterTypes.length,
        some ⟨.reg s.nextReg, .pvoid⟩⟩
      (afterPops stack s (pointerSlot :: pointerSlot :: function.parameterTypes)
        (.pvoid :: ty :: types)) := by
  have hrange : List.range (ty :: (types ++ [Ty.pvoid])).length =
      0 :: 1 :: List.range' 2 types.length := by
    simp [List.range_eq_range', List.range'_succ]
  have hblank : List.replicate (ty :: (types ++ [Ty.pvoid])).length (none : Option Value) =
      none :: (List.replicate types.length none ++ [none]) := by
    simp [List.replicate_succ, ← List.replicate_succ']
  have hobject : Runs (systemCallArgument stack function (ty :: (types ++ [.pvoid]))
      ⟨none :: (List.replicate types.length none ++ [none]), 0, 0, none⟩ 0) s
      ⟨none :: (List.replicate types.length none ++ [some ⟨.reg s.nextReg, .pvoid⟩]), 0, 0,
        some ⟨.reg s.nextReg, .pvoid⟩⟩ (afterPop stack s asPtrSize .pvoid) := by
    rw [systemCallArgument_objectLast hconv, if_pos rfl]
    have hpop := @popObject_runs stack s .pvoid (ty :: (types ++ [.pvoid]))
      ⟨none :: (List.replicate types.length none ++ [none]), 0, 0, none⟩ (types.length + 1)
      (by simp) hstack.addressable
    rw [List.set_cons_succ, List.set_append_right _ _ (by simp)] at hpop
    simpa using hpop
  have hreturn : Runs (systemCallArgument stack function (ty :: (types ++ [.pvoid]))
      ⟨none :: (List.replicate types.length none ++ [some ⟨.reg s.nextReg, .pvoid⟩]), 0, 0,
        some ⟨.reg s.nextReg, .pvoid⟩⟩ 1) (afterPop stack s asPtrSize .pvoid)
      ⟨some ⟨.reg (s.nextReg + 1), ty⟩ ::
        (List.replicate types.length none ++ [some ⟨.reg s.nextReg, .pvoid⟩]), 1, 0,
        some ⟨.reg s.nextReg, .pvoid⟩⟩
      (afterPop stack (afterPop stack s asPtrSize .pvoid) asPtrSize ty) := by
    rw [systemCallArgument_objectLast hconv, if_neg (by omega), if_pos (by simp [hmem])]
    exact runs_bind.mpr ⟨_, _, popSretPointer_runs rfl hstack.tail.addressable,
      runs_pure.mpr ⟨rfl, rfl⟩⟩
  have hparams := @popAllParams_runs stack function
    (afterPop stack (afterPop stack s asPtrSize .pvoid) asPtrSize ty) types
    (systemCallArgument stack function (ty :: (types ++ [.pvoid])))
    [some ⟨.reg (s.nextReg + 1), ty⟩] [some ⟨.reg s.nextReg, .pvoid⟩] (ty :: (types ++ [.pvoid]))
    (List.range' 2 types.length) (some ⟨.reg s.nextReg, .pvoid⟩)
    (fun i hi st => by
      have hi2 : 2 ≤ i := (List.mem_range'_1.mp hi).1
      rw [systemCallArgument_objectLast hconv, if_neg (by omega), if_neg (by simp; omega)])
    (by simpa using hlen) hlen
    (fun k ty' hk => by
      rw [List.length_singleton, Nat.add_comm, List.getElem?_cons_succ,
        List.getElem?_append_left (List.getElem?_eq_some_iff.mp hk).1, hk])
    hstack.tail.tail
  rw [systemCallArguments, hrange, hblank]
  refine runs_foldlM_cons.mpr ⟨_, _, hobject, runs_foldlM_cons.mpr ⟨_, _, hreturn, ?_⟩⟩
  simpa [hlen, ← afterPops_cons, Nat.add_assoc] using hparams

/-- The object and the parameters, the object passed last. -/
theorem objectLast_runs (hconv : function.sysFuncIntf.callConv = .ICC_CDECL_OBJLAST)
    (hmem : function.sysFuncIntf.hostReturnInMemory = false)
    (hlen : types.length = function.parameterTypes.length)
    (hstack : Poppable stack (pointerSlot :: function.parameterTypes) s.stackPointer) :
    Runs (systemCallArguments stack function (types ++ [.pvoid])) s
      ⟨(loadedValues (s.nextReg + 1) types ++ [(⟨.reg s.nextReg, .pvoid⟩ : Value)]).map some,
        function.parameterTypes.length, function.parameterTypes.length,
        some ⟨.reg s.nextReg, .pvoid⟩⟩
      (afterPops stack s (pointerSlot :: function.parameterTypes) (.pvoid :: types)) := by
  have hrange : List.range (types ++ [Ty.pvoid]).length = 0 :: List.range' 1 types.length := by
    simp [List.range_eq_range', List.range'_succ]
  have hblank : List.replicate (types ++ [Ty.pvoid]).length (none : Option Value) =
      List.replicate types.length none ++ [none] := by
    simp [← List.replicate_succ']
  have hobject : Runs (systemCallArgument stack function (types ++ [.pvoid])
      ⟨List.replicate types.length none ++ [none], 0, 0, none⟩ 0) s
      ⟨List.replicate types.length none ++ [some ⟨.reg s.nextReg, .pvoid⟩], 0, 0,
        some ⟨.reg s.nextReg, .pvoid⟩⟩ (afterPop stack s asPtrSize .pvoid) := by
    rw [systemCallArgument_objectLast hconv, if_pos rfl]
    have hpop := @popObject_runs stack s .pvoid (types ++ [.pvoid])
      ⟨List.replicate types.length none ++ [none], 0, 0, none⟩ types.length (by simp)
      hstack.addressable
    rw [List.set_append_right _ _ (by simp)] at hpop
    simpa using hpop
  have hparams := @popAllParams_runs stack function (afterPop stack s asPtrSize .pvoid) types
    (systemCallArgument stack function (types ++ [.pvoid])) []
    [some ⟨.reg s.nextReg, .pvoid⟩] (types ++ [.pvoid]) (List.range' 1 types.length)
    (some ⟨.reg s.nextReg, .pvoid⟩)
    (fun i hi st => by
      have hi1 : 1 ≤ i := (List.mem_range'_1.mp hi).1
      rw [systemCallArgument_objectLast hconv, if_neg (by omega), if_neg (by simp [hmem])])
    (by simpa using hlen) hlen
    (fun k ty' hk => by
      rw [List.length_nil, Nat.zero_add,
        List.getElem?_append_left (List.getElem?_eq_some_iff.mp hk).1, hk])
    hstack.tail
  rw [systemCallArguments, hrange, hblank]
  refine runs_foldlM_cons.mpr ⟨_, _, hobject, ?_⟩
  simpa [hlen, ← afterPops_cons] using hparams

theorem systemCallArgument_cdecl (hconv : function.sysFuncIntf.callConv = .ICC_CDECL)
    (paramTypes : List Ty) (st : SystemCallArguments) (i : ℕ) :
    systemCallArgument stack function paramTypes st i = popParam stack function paramTypes st := by
  unfold systemCallArgument
  dsimp only
  rw [hconv]

/-- The parameters alone. -/
theorem cdecl_runs (hconv : function.sysFuncIntf.callConv = .ICC_CDECL)
    (hlen : types.length = function.parameterTypes.length)
    (hstack : Poppable stack function.parameterTypes s.stackPointer) :
    Runs (systemCallArguments stack function types) s
      ⟨(loadedValues s.nextReg types).map some, function.parameterTypes.length,
        function.parameterTypes.length, none⟩
      (afterPops stack s function.parameterTypes types) := by
  have hparams := @popAllParams_runs stack function s types
    (systemCallArgument stack function types) [] [] types (List.range types.length) none
    (fun i _ st => systemCallArgument_cdecl hconv types st i) (by simpa using hlen) hlen
    (fun k ty' hk => by simpa using hk) hstack
  rw [systemCallArguments]
  simpa [hlen] using hparams

/-- Every parameter popped is a parameter of the function. -/
theorem scriptParamIndex_le {is : List ℕ} {paramTypes : List Ty} {st st' : SystemCallArguments}
    {t : EmitState}
    (h : Runs (is.foldlM (fun st _ => popParam stack function paramTypes st) st) s st' t)
    (hle : st.scriptParamIndex ≤ function.parameterTypes.length) :
    st.scriptParamIndex + is.length ≤ function.parameterTypes.length := by
  induction is generalizing st s with
  | nil => simpa using hle
  | cons i is ih =>
      obtain ⟨st₁, s₁, hpop, hrest⟩ := runs_foldlM_cons.mp h
      simp only [popParam, runs_bind, runs_elementAt, runs_pure] at hpop
      obtain ⟨_, _, ⟨-, rfl⟩, slot, _, ⟨hslot, rfl⟩, v, _, -, rfl, rfl⟩ := hpop
      have hlt := (List.getElem?_eq_some_iff.mp hslot).1
      have := ih hrest hlt
      simp only [List.length_cons] at this ⊢
      omega

/-- **The loop never ends well when nothing takes the return address**: it asks for a parameter
past the last one. -/
theorem cdecl_mem_not_runs (hconv : function.sysFuncIntf.callConv = .ICC_CDECL)
    (hlen : types.length = function.parameterTypes.length) {st : SystemCallArguments}
    {t : EmitState} : ¬ Runs (systemCallArguments stack function (ty :: types)) s st t := by
  intro h
  have hloop := (runs_foldlM_congr fun i _ st =>
    systemCallArgument_cdecl hconv (ty :: types) st i).mp h
  have := scriptParamIndex_le hloop (Nat.zero_le _)
  simp only [List.length_range, List.length_cons] at this
  omega

end Arguments

/-! ### Making the call -/

section Finish

variable {stack : StackFrame} {function : ScriptFunction} {s : EmitState}

/-- Every argument has been set. -/
theorem mapM_dereference_runs (vs : List Value) :
    Runs ((vs.map some).mapM dereference) s vs s := by
  induction vs with
  | nil => simp
  | cons v vs ih =>
      rw [List.map_cons, List.mapM_cons, runs_bind]
      exact ⟨v, s, by simp, runs_bind.mpr ⟨vs, s, ih, by simp⟩⟩

/-- The object check emits no native call. -/
theorem checkObject_runs (object : Option Value) :
    ∃ n ps, Runs (checkObject object) s () (s.extend n ps) ∧ nativeCalls ps = [] := by
  cases object with
  | none => exact ⟨0, [], by simp [checkObject], rfl⟩
  | some v => exact ⟨1, _, runs_emitCheckNullPointer.mpr rfl, rfl⟩

/-- Finding the callee is no native call. -/
theorem systemCallee_runs {object : Option Value}
    (hobject : function.sysFuncIntf.callConv = .ICC_VIRTUAL_THISCALL → object.isSome = true) :
    ∃ v n ps, Runs (systemCallee stack function object) s v (s.extend n ps) ∧
      nativeCalls ps = [] := by
  by_cases hconv : function.sysFuncIntf.callConv = .ICC_VIRTUAL_THISCALL
  · obtain ⟨v, rfl⟩ := Option.isSome_iff_exists.mp (hobject hconv)
    refine ⟨⟨.reg s.nextReg, .pvoid⟩, 1, [.instr (.call (some s.nextReg)
      (.runtime .systemVtableLookup) [v, ⟨.const function.sysFuncIntf.func, .pvoid⟩])], ?_, rfl⟩
    simp [systemCallee, hconv]
  · refine ⟨⟨.systemFunction function.id, .pvoid⟩, 0, [], ?_, rfl⟩
    unfold systemCallee
    dsimp only
    split
    · contradiction
    · simp

/-- The pieces of `emit_check_context_state`. -/
def contextCheck (r : ℕ) : List Piece :=
  [.instr (.call (some r) (.runtime .checkExecutionStatus) []),
    .instr (.icmp (r + 1) .ne .vmState (.reg r) (.const 0)),
    .check (.reg (r + 1)) VmState.ExceptionExternal.const.op]

/-- Pieces **make the native call** of `args`, whose result is `v`. -/
def MakesCall (ps : List Piece) (args : List Value) (v : Value) : Prop :=
  ∃ r target before after, v.op = .reg r ∧
    ps = before ++ .instr (.call (some r) (.system target) args) :: after

/-- The call passes the arguments, and its result is the register that it defines. -/
theorem callSystemFunction_runs (callee : Value) (returnType : Ty) (vs : List Value) :
    ∃ v n ps, Runs (callSystemFunction callee returnType (vs.map some)) s v (s.extend n ps) ∧
      nativeCalls ps = [vs] ∧ v.ty = returnType ∧ (returnType ≠ .void → MakesCall ps vs v) := by
  obtain ⟨v, n, i, hcall, hnative, hty, hresult⟩ : ∃ v n i,
      (∀ s' : EmitState, s'.nextReg = s.nextReg →
        Runs (createCall returnType (.system callee.op) vs) s' v (s'.extend n [.instr i])) ∧
      nativeCalls [.instr i] = [vs] ∧ v.ty = returnType ∧
      (returnType ≠ .void → ∃ r, v.op = .reg r ∧ i = .call (some r) (.system callee.op) vs) := by
    by_cases hty : returnType = .void
    · exact ⟨⟨.const 0, .void⟩, 0, .call none (.system callee.op) vs,
        fun s' _ => by rw [hty]; exact runs_createCall_void.mpr ⟨rfl, rfl⟩, rfl, hty.symm,
        fun hne => absurd hty hne⟩
    · exact ⟨⟨.reg s.nextReg, returnType⟩, 1, .call (some s.nextReg) (.system callee.op) vs,
        fun s' hs' => (runs_createCall hty).mpr ⟨by rw [hs'], by rw [hs']⟩, rfl, rfl,
        fun _ => ⟨s.nextReg, rfl, rfl⟩⟩
  refine ⟨v, 0 + n + 2, .instr (.call none (.runtime .prepareSystemCall) [callee]) ::
    .instr i :: contextCheck (s.nextReg + n), ?_, ?_, hty, fun hne => ?_⟩
  · refine runs_bind.mpr ⟨_, _, runs_createCall_void.mpr ⟨rfl, rfl⟩,
      runs_bind.mpr ⟨vs, _, mapM_dereference_runs vs, runs_bind.mpr ⟨v, _, hcall _ rfl,
      runs_bind.mpr ⟨(), _, runs_emitCheckContextState.mpr rfl, runs_pure.mpr ⟨rfl, ?_⟩⟩⟩⟩⟩
    simp [contextCheck]
  · change nativeCalls ([.instr i] ++ contextCheck (s.nextReg + n)) = [vs]
    rw [nativeCalls_append, hnative]
    rfl
  · obtain ⟨r, hv, rfl⟩ := hresult hne
    exact ⟨r, callee.op, [_], _, hv, rfl⟩

/-- The result is stored, through the return address if that was popped. -/
theorem storeSystemResult_runs (returnPointer : Option Value) (result : Value) :
    ∃ ps, Runs (storeSystemResult function returnPointer result) s () (s.extend 0 ps) ∧
      nativeCalls ps = [] ∧ ∀ pointer, returnPointer = some pointer →
        Piece.instr (.store result.ty result.op pointer.op) ∈ ps := by
  cases returnPointer with
  | some pointer =>
      refine ⟨_, runs_createStore.mpr rfl, rfl, fun pointer' h => ?_⟩
      obtain rfl := Option.some.inj h
      exact List.mem_singleton_self _
  | none =>
      unfold storeSystemResult
      dsimp only
      split
      · split
        · exact ⟨_, runs_createStore.mpr rfl, rfl, nofun⟩
        · exact ⟨_, runs_storeValueRegisterValue.mpr rfl, rfl, nofun⟩
      · exact ⟨[], by simp, rfl, nofun⟩

/-- **The second half of a system call**: it makes one native call, with the arguments popped, and
stores the result through the return address, if that was popped. -/
theorem finishSystemCall_runs (returnType : Ty) (returnPointer : Option Value) (vs : List Value)
    {i j : ℕ} {object : Option Value}
    (hobject : function.sysFuncIntf.callConv = .ICC_VIRTUAL_THISCALL → object.isSome = true) :
    ∃ n ps, nativeCalls ps = [vs] ∧
      (∀ pointer, returnPointer = some pointer → returnType ≠ .void →
        StoresResult ps vs returnType pointer.op) ∧
      Runs (finishSystemCall stack function returnType returnPointer ⟨vs.map some, i, j, object⟩)
        s () { s.extend n ps with stackPointer := max s.stackPointer stack.variableSpace } := by
  obtain ⟨n₁, ps₁, hcheck, hnative₁⟩ := @checkObject_runs s object
  obtain ⟨callee, n₂, ps₂, hcallee, hnative₂⟩ :=
    @systemCallee_runs stack function (s.extend n₁ ps₁) object hobject
  obtain ⟨result, n₃, ps₃, hcall, hnative₃, hty, hmakes⟩ :=
    @callSystemFunction_runs ((s.extend n₁ ps₁).extend n₂ ps₂) callee returnType vs
  obtain ⟨ps₄, hstore, hnative₄, hpointer⟩ :=
    @storeSystemResult_runs function (((s.extend n₁ ps₁).extend n₂ ps₂).extend n₃ ps₃)
      returnPointer result
  refine ⟨n₁ + n₂ + n₃ + 0, ps₁ ++ ps₂ ++ ps₃ ++ ps₄, ?_, fun pointer h hne => ?_, ?_⟩
  · simp [hnative₁, hnative₂, hnative₃, hnative₄]
  · obtain ⟨r, target, before, after, hresult, rfl⟩ := hmakes hne
    have hstored := hpointer pointer h
    rw [hty, hresult] at hstored
    exact ⟨r, target, ps₁ ++ ps₂ ++ before, after ++ ps₄, by simp,
      List.mem_append_right _ hstored⟩
  · refine runs_bind.mpr ⟨(), _, hcheck, runs_bind.mpr ⟨callee, _, hcallee,
      runs_bind.mpr ⟨result, _, hcall, runs_bind.mpr ⟨(), _, hstore, ?_⟩⟩⟩⟩
    rw [StackFrame.runs_uglyHack]
    simp

end Finish

/-! ### The whole call -/

section Call

variable {stack : StackFrame} {function : ScriptFunction} {s t : EmitState}

/-- **What AngelScript promises of a system function** that a call goes to: a supported
signature, one of the five conventions, and a host that only returns in memory what the function
returns on the stack. -/
structure ScriptFunction.Callable (function : ScriptFunction) : Prop where
  convention : function.sysFuncIntf.callConv ≠ .ICC_OTHER
  parameters : ∀ type ∈ function.parameterTypes, type.Supported
  returned : ∃ ty, toLlvmType function.returnType = .ok ty
  hostReturn : function.sysFuncIntf.hostReturnInMemory = true → function.doesReturnOnStack = true

/-- The hidden slots the argument loop pops. -/
def ScriptFunction.loopHidden (function : ScriptFunction) : ℕ :=
  (if function.sysFuncIntf.callConv.hasObject then 1 else 0) +
    if function.sysFuncIntf.hostReturnInMemory then 1 else 0

/-- The slots the argument loop pops. -/
def ScriptFunction.loopSlots (function : ScriptFunction) : List DataType :=
  List.replicate function.loopHidden pointerSlot ++ function.parameterTypes

/-- What the argument loop gathers: each slot is in the next register, and each register at its
own native position. -/
structure Gathered (function : ScriptFunction) (r : ℕ) (vs : List Value) (types : List Ty) :
    Prop where
  object : function.sysFuncIntf.callConv.hasObject = true →
    ∃ ty, vs[function.objectPosition]? = some ⟨.reg r, ty⟩ ∧ types[0]? = some ty
  returned : function.sysFuncIntf.hostReturnInMemory = true →
    ∃ ty, vs[0]? = some ⟨.reg (r + 1), ty⟩ ∧ types[1]? = some ty
  parameters : ∀ k type, function.parameterTypes[k]? = some type →
    ∃ ty, toLlvmType type = .ok ty ∧
      vs[function.parameterPosition + k]? = some ⟨.reg (r + function.loopHidden + k), ty⟩ ∧
      types[function.loopHidden + k]? = some ty

/-- A supported type has an LLVM type. -/
theorem DataType.Supported.exists_toLlvmType {type : DataType} (h : type.Supported) :
    ∃ ty, toLlvmType type = .ok ty := by
  unfold toLlvmType
  by_cases hprim : type.isPrimitive = true
  · obtain ⟨hother, -⟩ := h.token hprim
    have hbase : ∃ ty, type.tokenType.toLlvmType = .ok ty := by
      cases htok : type.tokenType <;> simp_all [TokenType.toLlvmType]
    obtain ⟨ty, hty⟩ := hbase
    cases type.isReference <;> simp [hprim, hty, bind, Except.bind, pure, Except.pure]
  · obtain ⟨hinfo, hkind⟩ := h.object (by simpa using hprim)
    obtain ⟨id, hid⟩ := Option.isSome_iff_exists.mp hinfo
    simp [hprim, hkind, hid]

theorem exists_mapM_toLlvmType {types : List DataType} (h : ∀ type ∈ types, type.Supported) :
    ∃ tys, types.mapM toLlvmType = .ok tys := by
  induction types with
  | nil => exact ⟨[], rfl⟩
  | cons type types ih =>
      obtain ⟨ty, hty⟩ := (h type List.mem_cons_self).exists_toLlvmType
      obtain ⟨tys, htys⟩ := ih fun type' h' => h type' (List.mem_cons_of_mem _ h')
      exact ⟨ty :: tys, mapM_eq_ok.mpr (.cons hty (mapM_eq_ok.mp htys))⟩

/-- The LLVM types of the parameters, in order. -/
def ParameterTys (function : ScriptFunction) (tys : List Ty) : Prop :=
  ∀ (k : ℕ) type, function.parameterTypes[k]? = some type →
    ∃ ty, toLlvmType type = .ok ty ∧ tys[k]? = some ty

theorem gathered_objectFirst {r : ℕ} {tys : List Ty} {ty : Ty}
    (hconv : function.sysFuncIntf.callConv.objectFirst = true)
    (htys : ParameterTys function tys) :
    (function.sysFuncIntf.hostReturnInMemory = true →
      Gathered function r (⟨.reg (r + 1), .pvoid⟩ :: ⟨.reg r, ty⟩ :: loadedValues (r + 2) tys)
        (ty :: .pvoid :: tys)) ∧
    (function.sysFuncIntf.hostReturnInMemory = false →
      Gathered function r (⟨.reg r, .pvoid⟩ :: loadedValues (r + 1) tys) (.pvoid :: tys)) := by
  have hobject : function.sysFuncIntf.callConv.hasObject = true := by
    cases hc : function.sysFuncIntf.callConv <;> simp_all [CallConv.objectFirst, CallConv.hasObject]
  have hlast : function.sysFuncIntf.callConv ≠ .ICC_CDECL_OBJLAST := by
    intro h
    simp [h, CallConv.objectFirst] at hconv
  refine ⟨fun hmem => ⟨fun _ => ⟨ty, ?_, rfl⟩, fun _ => ⟨.pvoid, rfl, rfl⟩, fun k type hk => ?_⟩,
    fun hmem => ⟨fun _ => ⟨.pvoid, ?_, rfl⟩, fun h => ?_, fun k type hk => ?_⟩⟩
  · simp [ScriptFunction.objectPosition, hlast, hmem]
  · obtain ⟨ty', hty', hk'⟩ := htys k type hk
    refine ⟨ty', hty', ?_, ?_⟩
    · simpa [ScriptFunction.parameterPosition, ScriptFunction.loopHidden, hmem, hobject, hlast,
        Nat.add_comm 2] using loadedValues_get hk'
    · simpa [ScriptFunction.loopHidden, hmem, hobject, Nat.add_comm 2] using hk'
  · simp [ScriptFunction.objectPosition, hlast, hmem]
  · simp [hmem] at h
  · obtain ⟨ty', hty', hk'⟩ := htys k type hk
    refine ⟨ty', hty', ?_, ?_⟩
    · simpa [ScriptFunction.parameterPosition, ScriptFunction.loopHidden, hmem, hobject, hlast,
        Nat.add_comm 1] using loadedValues_get hk'
    · simpa [ScriptFunction.loopHidden, hmem, hobject, Nat.add_comm 1] using hk'

theorem gathered_objectLast {r : ℕ} {tys : List Ty} {ty : Ty}
    (hconv : function.sysFuncIntf.callConv = .ICC_CDECL_OBJLAST)
    (htys : ParameterTys function tys) (hlen : tys.length = function.parameterTypes.length) :
    (function.sysFuncIntf.hostReturnInMemory = true →
      Gathered function r
        (⟨.reg (r + 1), ty⟩ :: (loadedValues (r + 2) tys ++ [⟨.reg r, .pvoid⟩]))
        (.pvoid :: ty :: tys)) ∧
    (function.sysFuncIntf.hostReturnInMemory = false →
      Gathered function r (loadedValues (r + 1) tys ++ [⟨.reg r, .pvoid⟩]) (.pvoid :: tys)) := by
  refine ⟨fun hmem => ⟨fun _ => ⟨.pvoid, ?_, rfl⟩, fun _ => ⟨ty, rfl, rfl⟩, fun k type hk => ?_⟩,
    fun hmem => ⟨fun _ => ⟨.pvoid, ?_, rfl⟩, fun h => ?_, fun k type hk => ?_⟩⟩
  · simp [ScriptFunction.objectPosition, hconv, hmem, ← hlen, Nat.add_comm 1]
  · obtain ⟨ty', hty', hk'⟩ := htys k type hk
    have hlt : k < (loadedValues (r + 2) tys).length := by
      simpa using (List.getElem?_eq_some_iff.mp hk').1
    refine ⟨ty', hty', ?_, ?_⟩
    · simpa [ScriptFunction.parameterPosition, ScriptFunction.loopHidden, hmem, hconv,
        CallConv.hasObject, Nat.add_comm 1, List.getElem?_append_left hlt]
        using loadedValues_get hk'
    · simpa [ScriptFunction.loopHidden, hmem, hconv, CallConv.hasObject, Nat.add_comm 2] using hk'
  · simp [ScriptFunction.objectPosition, hconv, hmem, ← hlen]
  · simp [hmem] at h
  · obtain ⟨ty', hty', hk'⟩ := htys k type hk
    have hlt : k < (loadedValues (r + 1) tys).length := by
      simpa using (List.getElem?_eq_some_iff.mp hk').1
    refine ⟨ty', hty', ?_, ?_⟩
    · simpa [ScriptFunction.parameterPosition, ScriptFunction.loopHidden, hmem, hconv,
        CallConv.hasObject, List.getElem?_append_left hlt] using loadedValues_get hk'
    · simpa [ScriptFunction.loopHidden, hmem, hconv, CallConv.hasObject, Nat.add_comm 1] using hk'

theorem gathered_cdecl {r : ℕ} {tys : List Ty}
    (hconv : function.sysFuncIntf.callConv = .ICC_CDECL)
    (hmem : function.sysFuncIntf.hostReturnInMemory = false)
    (htys : ParameterTys function tys) : Gathered function r (loadedValues r tys) tys where
  object h := by simp [hconv, CallConv.hasObject] at h
  returned h := by simp [hmem] at h
  parameters k type hk := by
    obtain ⟨ty', hty', hk'⟩ := htys k type hk
    refine ⟨ty', hty', ?_, ?_⟩
    · simpa [ScriptFunction.parameterPosition, ScriptFunction.loopHidden, hmem, hconv,
        CallConv.hasObject] using loadedValues_get hk'
    · simpa [ScriptFunction.loopHidden, hmem, hconv, CallConv.hasObject] using hk'

/-- **The argument loop gathers all it needs**, unless nothing takes the return address. -/
theorem systemCallArguments_gathered (hcallable : function.Callable)
    (hcdecl : ¬ (function.sysFuncIntf.callConv = .ICC_CDECL ∧
      function.sysFuncIntf.hostReturnInMemory = true))
    (stack : StackFrame) :
    ∃ returnType paramTypes, getSystemFunctionType function = .ok (returnType, paramTypes) ∧
      ∀ s : EmitState, Poppable stack function.loopSlots s.stackPointer →
      ∃ vs i j object types, Runs (systemCallArguments stack function paramTypes) s ⟨vs.map some, i, j, object⟩
        (afterPops stack s function.loopSlots types) ∧
      (function.sysFuncIntf.callConv = .ICC_VIRTUAL_THISCALL → object.isSome = true) ∧
      Gathered function s.nextReg vs types := by
  obtain ⟨ty, hty⟩ := hcallable.returned
  obtain ⟨tys, htys⟩ := exists_mapM_toLlvmType hcallable.parameters
  have hall := mapM_eq_ok.mp htys
  have hlen : tys.length = function.parameterTypes.length := hall.length_eq.symm
  have hget : ParameterTys function tys := by
    intro k type hk
    obtain ⟨hlt, rfl⟩ := List.getElem?_eq_some_iff.mp hk
    exact ⟨tys[k], hall.get hlt (by omega), List.getElem?_eq_getElem _⟩
  cases hmem : function.sysFuncIntf.hostReturnInMemory <;>
    cases hconv : function.sysFuncIntf.callConv
  case true.ICC_CDECL => exact absurd ⟨hconv, hmem⟩ hcdecl
  case true.ICC_OTHER | false.ICC_OTHER => exact absurd hconv hcallable.convention
  case false.ICC_CDECL =>
    have hslots : function.loopSlots = function.parameterTypes := by
      simp [ScriptFunction.loopSlots, ScriptFunction.loopHidden, CallConv.hasObject, hconv, hmem]
    have hsig : getSystemFunctionType function = .ok (ty, tys) := by
      simp [getSystemFunctionType, hty, htys, hmem, hconv, bind, Except.bind, pure, Except.pure]
    refine ⟨_, _, hsig, fun s hstack => ?_⟩
    rw [hslots] at hstack ⊢
    have hrun := cdecl_runs hconv hlen hstack
    have hgathered := @gathered_cdecl function s.nextReg _ hconv hmem hget
    exact ⟨_, _, _, _, _, hrun, nofun, hgathered⟩
  case false.ICC_CDECL_OBJLAST =>
    have hslots : function.loopSlots = pointerSlot :: function.parameterTypes := by
      simp [ScriptFunction.loopSlots, ScriptFunction.loopHidden, CallConv.hasObject, hconv, hmem]
    have hsig : getSystemFunctionType function = .ok (ty, tys ++ [.pvoid]) := by
      simp [getSystemFunctionType, hty, htys, hmem, hconv, bind, Except.bind, pure, Except.pure]
    refine ⟨_, _, hsig, fun s hstack => ?_⟩
    rw [hslots] at hstack ⊢
    have hrun := objectLast_runs hconv hmem hlen hstack
    have hgathered := (@gathered_objectLast function s.nextReg _ ty hconv hget hlen).2 hmem
    exact ⟨_, _, _, _, _, hrun, nofun, hgathered⟩
  case true.ICC_CDECL_OBJLAST =>
    have hslots : function.loopSlots = pointerSlot :: pointerSlot :: function.parameterTypes := by
      simp [ScriptFunction.loopSlots, ScriptFunction.loopHidden, CallConv.hasObject, hconv, hmem, List.replicate_succ]
    have hsig : getSystemFunctionType function = .ok (.void, .ptr ty :: (tys ++ [.pvoid])) := by
      simp [getSystemFunctionType, hty, htys, hmem, hconv, bind, Except.bind, pure, Except.pure]
    refine ⟨_, _, hsig, fun s hstack => ?_⟩
    rw [hslots] at hstack ⊢
    have hrun := @objectLast_mem_runs stack function s tys (.ptr ty) hconv hmem hlen hstack
    have hgathered := (@gathered_objectLast function s.nextReg _ (.ptr ty) hconv hget hlen).1 hmem
    exact ⟨_, _, _, _, _, hrun, nofun, hgathered⟩
  case false.ICC_THISCALL | false.ICC_VIRTUAL_THISCALL | false.ICC_CDECL_OBJFIRST =>
    have hfirst : function.sysFuncIntf.callConv.objectFirst = true := by rw [hconv]; rfl
    have hslots : function.loopSlots = pointerSlot :: function.parameterTypes := by
      simp [ScriptFunction.loopSlots, ScriptFunction.loopHidden, CallConv.hasObject, hconv, hmem]
    have hsig : getSystemFunctionType function = .ok (ty, .pvoid :: tys) := by
      simp [getSystemFunctionType, hty, htys, hmem, hconv, bind, Except.bind, pure, Except.pure]
    refine ⟨_, _, hsig, fun s hstack => ?_⟩
    rw [hslots] at hstack ⊢
    have hrun := objectFirst_runs hfirst hmem hlen hstack
    have hgathered := (@gathered_objectFirst function s.nextReg _ ty hfirst hget).2 hmem
    exact ⟨_, _, _, _, _, hrun, fun _ => rfl, hgathered⟩
  case true.ICC_THISCALL | true.ICC_VIRTUAL_THISCALL | true.ICC_CDECL_OBJFIRST =>
    have hfirst : function.sysFuncIntf.callConv.objectFirst = true := by rw [hconv]; rfl
    have hslots : function.loopSlots = pointerSlot :: pointerSlot :: function.parameterTypes := by
      simp [ScriptFunction.loopSlots, ScriptFunction.loopHidden, CallConv.hasObject, hconv, hmem, List.replicate_succ]
    have hsig : getSystemFunctionType function = .ok (.void, .pvoid :: .ptr ty :: tys) := by
      simp [getSystemFunctionType, hty, htys, hmem, hconv, bind, Except.bind, pure, Except.pure]
    refine ⟨_, _, hsig, fun s hstack => ?_⟩
    rw [hslots] at hstack ⊢
    have hrun := @objectFirst_mem_runs stack function s tys (.ptr ty) hfirst hmem hlen hstack
    have hgathered := (@gathered_objectFirst function s.nextReg _ (.ptr ty) hfirst hget).1 hmem
    exact ⟨_, _, _, _, _, hrun, fun _ => rfl, hgathered⟩

/-- The return address is popped before the argument loop. -/
def ScriptFunction.popsReturnFirst (function : ScriptFunction) : Bool :=
  function.doesReturnOnStack && !function.sysFuncIntf.hostReturnInMemory

/-- All slots of a system call, in the order they are popped. -/
def ScriptFunction.systemCallSlots (function : ScriptFunction) : List DataType :=
  List.replicate (if function.popsReturnFirst then 1 else 0) pointerSlot ++ function.loopSlots

/-- **The type a system call returns**, if its host does not return in memory. -/
theorem getSystemFunctionType_returnType {returnType : Ty} {types : List Ty}
    (hmem : function.sysFuncIntf.hostReturnInMemory = false)
    (h : getSystemFunctionType function = .ok (returnType, types)) :
    toLlvmType function.returnType = .ok returnType := by
  rw [getSystemFunctionType, hmem] at h
  obtain ⟨type, htype, h⟩ := except_bind_ok.mp h
  obtain ⟨tys, -, h⟩ := except_bind_ok.mp h
  rw [htype]
  split at h <;> first
    | exact congrArg Except.ok (Prod.mk.inj (Except.ok.inj h)).1
    | exact absurd h (by simp)

/-- **A system call, run symbolically**: every slot is popped into the next register, and the loop
gathers the registers it popped itself. -/
theorem emitSystemCall_runs (hcallable : function.Callable)
    (hcdecl : ¬ (function.sysFuncIntf.callConv = .ICC_CDECL ∧
      function.sysFuncIntf.hostReturnInMemory = true))
    (hstack : Poppable stack function.systemCallSlots s.stackPointer) :
    ∃ first vs types ps t, Runs (emitSystemCall stack function) s () t ∧
      t.out = s.out ++ (popPieces stack s.nextReg s.stackPointer function.systemCallSlots
        (first ++ types) ++ ps) ∧
      t.stackPointer =
        max (s.stackPointer - slotDWords function.systemCallSlots) stack.variableSpace ∧
      nativeCalls ps = [vs] ∧
      first.length = (if function.popsReturnFirst then 1 else 0) ∧
      Gathered function (s.nextReg + if function.popsReturnFirst then 1 else 0) vs types ∧
      (function.popsReturnFirst = true → ∃ ty, toLlvmType function.returnType = .ok ty ∧
        first = [.ptr ty] ∧ (ty ≠ .void → StoresResult ps vs ty (.reg s.nextReg))) := by
  obtain ⟨returnType, paramTypes, hsig, hloop⟩ :=
    systemCallArguments_gathered hcallable hcdecl stack
  cases hfirst : function.popsReturnFirst with
  | false =>
      have hslots : function.systemCallSlots = function.loopSlots := by
        simp [ScriptFunction.systemCallSlots, hfirst]
      rw [hslots] at hstack ⊢
      obtain ⟨vs, i, j, object, types, hrun, hobject, hgathered⟩ := hloop s hstack
      obtain ⟨n, ps, hnative, -, hfinish⟩ :=
        @finishSystemCall_runs stack function (afterPops stack s function.loopSlots types)
          returnType none vs i j object hobject
      have hpop : Runs (popReturnPointer stack function returnType) s none s := by
        have hno : (function.doesReturnOnStack && !function.sysFuncIntf.hostReturnInMemory) = false :=
          hfirst
        rw [popReturnPointer, hno]
        exact runs_pure.mpr ⟨rfl, rfl⟩
      have hcall : Runs (emitSystemCall stack function) s () _ :=
        runs_bind.mpr ⟨(returnType, paramTypes), s, runs_lift.mpr ⟨hsig, rfl⟩,
          runs_bind.mpr ⟨none, s, hpop, runs_bind.mpr ⟨_, _, hrun, hfinish⟩⟩⟩
      exact ⟨[], vs, types, ps, _, hcall, by simp [afterPops], by simp [afterPops, Int.sub_eq_add_neg],
        hnative, rfl, hgathered, nofun⟩
  | true =>
      have hslots : function.systemCallSlots = pointerSlot :: function.loopSlots := by
        simp [ScriptFunction.systemCallSlots, hfirst]
      rw [hslots] at hstack ⊢
      obtain ⟨vs, i, j, object, types, hrun, hobject, hgathered⟩ :=
        hloop (afterPop stack s asPtrSize (.ptr returnType)) hstack.tail
      have hpops : afterPops stack (afterPop stack s asPtrSize (.ptr returnType))
          function.loopSlots types =
          afterPops stack s (pointerSlot :: function.loopSlots) (.ptr returnType :: types) :=
        @afterPops_cons stack types (.ptr returnType) s pointerSlot function.loopSlots
      rw [hpops] at hrun
      obtain ⟨n, ps, hnative, hstore, hfinish⟩ :=
        @finishSystemCall_runs stack function
          (afterPops stack s (pointerSlot :: function.loopSlots) (.ptr returnType :: types))
          returnType (some ⟨.reg s.nextReg, .ptr returnType⟩) vs i j object hobject
      have hpop : Runs (popReturnPointer stack function returnType) s
          (some ⟨.reg s.nextReg, .ptr returnType⟩)
          (afterPop stack s asPtrSize (.ptr returnType)) := by
        have hyes : (function.doesReturnOnStack && !function.sysFuncIntf.hostReturnInMemory) = true :=
          hfirst
        rw [popReturnPointer, hyes]
        exact runs_bind.mpr ⟨_, _, pop_runs hstack.addressable, runs_pure.mpr ⟨rfl, rfl⟩⟩
      have hcall : Runs (emitSystemCall stack function) s () _ :=
        runs_bind.mpr ⟨(returnType, paramTypes), s, runs_lift.mpr ⟨hsig, rfl⟩,
          runs_bind.mpr ⟨_, _, hpop, runs_bind.mpr ⟨_, _, hrun, hfinish⟩⟩⟩
      have hmem : function.sysFuncIntf.hostReturnInMemory = false := by
        rw [ScriptFunction.popsReturnFirst, Bool.and_eq_true, Bool.not_eq_true'] at hfirst
        exact hfirst.2
      exact ⟨[.ptr returnType], vs, types, ps, _, hcall, by simp [afterPops],
        by simp [afterPops, Int.sub_eq_add_neg], hnative, rfl, hgathered,
        fun _ => ⟨returnType, getSystemFunctionType_returnType hmem hsig, rfl, hstore _ rfl⟩⟩

/-- The hidden slots of a system call. -/
def ScriptFunction.hiddenSlots (function : ScriptFunction) : ℕ :=
  (if function.popsReturnFirst then 1 else 0) + function.loopHidden

theorem systemCallSlots_eq (function : ScriptFunction) : function.systemCallSlots =
    List.replicate function.hiddenSlots pointerSlot ++ function.parameterTypes := by
  rw [ScriptFunction.systemCallSlots, ScriptFunction.loopSlots, ScriptFunction.hiddenSlots,
    List.replicate_add, List.append_assoc]

theorem total_replicate_pointerSlot (n : ℕ) :
    total DataType.sizeOnStackDWords (List.replicate n pointerSlot) = 2 * n := by
  induction n with
  | zero => rfl
  | succ n ih =>
      rw [List.replicate_succ, total_cons, ih, objectOf_sizeOnStackDWords, asPtrSize]
      omega

/-- The hidden slots are the object and the return address. -/
theorem ScriptFunction.Callable.hiddenSlots (h : function.Callable) :
    2 * function.hiddenSlots = function.objectDWords + function.returnDWords := by
  have hreturn := h.hostReturn
  unfold ScriptFunction.hiddenSlots ScriptFunction.loopHidden ScriptFunction.objectDWords
    ScriptFunction.returnDWords ScriptFunction.popsReturnFirst
  cases hm : function.sysFuncIntf.hostReturnInMemory <;>
    cases hr : function.doesReturnOnStack <;>
    cases ho : function.sysFuncIntf.callConv.hasObject <;> simp_all [asPtrSize]

theorem ScriptFunction.Callable.slotDWords_eq (h : function.Callable) :
    slotDWords function.systemCallSlots = function.systemCallDWords := by
  rw [systemCallSlots_eq, slotDWords, total_append, total_replicate_pointerSlot, h.hiddenSlots,
    ScriptFunction.systemCallDWords]

/-- The offset of a parameter: below the object and the return address. -/
theorem ScriptFunction.Callable.slotOffset_eq (h : function.Callable) (k : ℕ) :
    slotOffset function.systemCallSlots (function.hiddenSlots + k) =
      function.objectDWords + function.returnDWords + slotOffset function.parameterTypes k := by
  have hoffset := offset_append_add DataType.sizeOnStackDWords
    (List.replicate function.hiddenSlots pointerSlot) function.parameterTypes k
  rw [List.length_replicate, total_replicate_pointerSlot, h.hiddenSlots] at hoffset
  rw [systemCallSlots_eq]
  exact hoffset

/-- A hidden slot is a pointer, two dwords below the one before. -/
theorem systemCallSlots_hidden {k : ℕ} (hk : k < function.hiddenSlots) :
    function.systemCallSlots[k]? = some pointerSlot ∧
      slotOffset function.systemCallSlots k = 2 * k := by
  rw [systemCallSlots_eq]
  constructor
  · rw [List.getElem?_append_left (by simpa using hk), List.getElem?_replicate, if_pos hk]
  · have htake : (List.replicate function.hiddenSlots pointerSlot ++
        function.parameterTypes).take k = List.replicate k pointerSlot := by
      rw [List.take_append_of_le_length (by simpa using hk.le), List.take_replicate,
        Nat.min_eq_left hk.le]
    rw [slotOffset, offset, htake, total_replicate_pointerSlot]

/-- The parameters come after the hidden slots. -/
theorem systemCallSlots_parameter {k : ℕ} {type : DataType}
    (hk : function.parameterTypes[k]? = some type) :
    function.systemCallSlots[function.hiddenSlots + k]? = some type := by
  rw [systemCallSlots_eq, List.getElem?_append_right (by simp)]
  simpa using hk

/-- A convention without an object never returns in host memory, as `ICC_CDECL` is left out. -/
theorem ScriptFunction.Callable.hasObject (h : function.Callable)
    (hcdecl : ¬ (function.sysFuncIntf.callConv = .ICC_CDECL ∧
      function.sysFuncIntf.hostReturnInMemory = true))
    (hmem : function.sysFuncIntf.hostReturnInMemory = true) :
    function.sysFuncIntf.callConv.hasObject = true := by
  have hother := h.convention
  cases hc : function.sysFuncIntf.callConv <;> simp_all [CallConv.hasObject]

/-- All slots of the call are on the stack. -/
theorem onStack_systemCallSlots (hcallable : function.Callable)
    (hstack : stack.variableSpace + function.systemCallDWords ≤ s.stackPointer)
    (hbound : s.stackPointer ≤ stack.totalSpace) :
    OnStack stack function.systemCallSlots s.stackPointer where
  sizes type htype := by
    rw [systemCallSlots_eq] at htype
    rcases List.mem_append.mp htype with h | h
    · rw [List.eq_of_mem_replicate h, objectOf_sizeOnStackDWords]
      decide
    · exact (hcallable.parameters type h).size_pos
  nonneg := by
    have hspace := stack.variableSpace_nonneg
    rw [hcallable.slotDWords_eq]
    omega
  bound := hbound

/-- The stack pointer is clamped at the variables. -/
theorem stackPointer_ge_of_emitSystemCall (h : Runs (emitSystemCall stack function) s () t) :
    stack.variableSpace ≤ t.stackPointer := by
  simp only [emitSystemCall, finishSystemCall, runs_bind, StackFrame.runs_uglyHack] at h
  obtain ⟨_, _, -, _, _, -, _, _, -, _, _, -, _, _, -, _, _, -, _, _, -, rfl⟩ := h
  exact le_max_right _ _

/-- Without a place for the return address the call cannot be emitted. -/
theorem emitSystemCall_cdecl_mem (hcallable : function.Callable)
    (hcdecl : function.sysFuncIntf.callConv = .ICC_CDECL ∧
      function.sysFuncIntf.hostReturnInMemory = true) :
    ¬ Runs (emitSystemCall stack function) s () t := by
  obtain ⟨hconv, hmem⟩ := hcdecl
  obtain ⟨ty, hty⟩ := hcallable.returned
  obtain ⟨tys, htys⟩ := exists_mapM_toLlvmType hcallable.parameters
  have hlen : tys.length = function.parameterTypes.length :=
    (mapM_eq_ok.mp htys).length_eq.symm
  have hsig : getSystemFunctionType function = .ok (.void, .ptr ty :: tys) := by
    simp [getSystemFunctionType, hty, htys, hmem, hconv, bind, Except.bind, pure, Except.pure]
  intro h
  obtain ⟨⟨returnType, paramTypes⟩, s₁, hlift, h⟩ := runs_bind.mp h
  obtain ⟨hsig', rfl⟩ := runs_lift.mp hlift
  obtain ⟨rfl, rfl⟩ := Prod.mk.inj (Except.ok.inj (hsig.symm.trans hsig'))
  obtain ⟨_, s₂, -, h⟩ := runs_bind.mp h
  obtain ⟨st, s₃, hargs, -⟩ := runs_bind.mp h
  exact cdecl_mem_not_runs hconv hlen hargs

/-- **A system call marshals its arguments**, when its return address is not popped before an
object. -/
theorem emitSystemCall_marshals (hcallable : function.Callable)
    (hcdecl : ¬ (function.sysFuncIntf.callConv = .ICC_CDECL ∧
      function.sysFuncIntf.hostReturnInMemory = true))
    (hobject : ¬ (function.sysFuncIntf.callConv.hasObject = true ∧
      function.popsReturnFirst = true))
    (hstack : stack.variableSpace + function.systemCallDWords ≤ s.stackPointer)
    (hbound : s.stackPointer ≤ stack.totalSpace) :
    ∃ t ps args, Runs (emitSystemCall stack function) s () t ∧
      Marshals stack function s t ps args := by
  have hdwords := hcallable.slotDWords_eq
  have hon := onStack_systemCallSlots hcallable hstack hbound
  obtain ⟨first, vs, types, ps, t, hrun, hout, hsp, hnative, hlen, hgathered, hstore⟩ :=
    emitSystemCall_runs hcallable hcdecl hon.poppable
  obtain ⟨qs, hqs⟩ := emitted_of_runs hrun
  obtain rfl := List.append_cancel_left (hout.symm.trans hqs.out)
  have hload : ∀ {k slot ty}, function.systemCallSlots[k]? = some slot →
      (first ++ types)[k]? = some ty → Piece.instr (.load (s.nextReg + k) ty (stack.slotAddress
        (s.stackPointer - slotOffset function.systemCallSlots k))) ∈
        popPieces stack s.nextReg s.stackPointer function.systemCallSlots (first ++ types) ++ ps :=
    fun hslot hty => List.mem_append_left _ (mem_popPieces hslot hty)
  -- the hidden slots are pointers, and lie above the parameters
  have hhidden : ∀ {k : ℕ} {ty}, k < function.hiddenSlots → (first ++ types)[k]? = some ty →
      Piece.instr (.load (s.nextReg + k) ty (stack.slotAddress (s.stackPointer - (2 * k : ℕ)))) ∈
        popPieces stack s.nextReg s.stackPointer function.systemCallSlots (first ++ types) ++ ps := by
    intro k ty hk hty
    obtain ⟨hslot, hoffset⟩ := systemCallSlots_hidden hk
    have hpiece := hload hslot hty
    rw [hoffset] at hpiece
    exact hpiece
  refine ⟨t, _, vs, hrun, hout, ?_, by simpa using hnative, ?_, ?_, ?_, ?_⟩
  · rw [hqs.registers]
    exact List.nodup_range'
  · intro ho
    have hfirst : function.popsReturnFirst = false := by simpa [ho] using hobject
    have hpos : 0 < function.hiddenSlots := by
      simp only [ScriptFunction.hiddenSlots, ScriptFunction.loopHidden, ho, if_true]
      omega
    obtain rfl : first = [] := List.length_eq_zero_iff.mp (by simpa [hfirst] using hlen)
    obtain ⟨ty, hv, hty⟩ := hgathered.object ho
    exact ⟨_, hv, s.nextReg, by simp [hfirst], by simpa using hhidden hpos hty⟩
  · intro hreturn
    cases hmem : function.sysFuncIntf.hostReturnInMemory with
    | true =>
        have ho := hcallable.hasObject hcdecl hmem
        have hfirst : function.popsReturnFirst = false := by
          simp [ScriptFunction.popsReturnFirst, hmem]
        have hpos : 1 < function.hiddenSlots := by
          simp [ScriptFunction.hiddenSlots, ScriptFunction.loopHidden, ho, hmem]
        obtain rfl : first = [] := List.length_eq_zero_iff.mp (by simpa [hfirst] using hlen)
        obtain ⟨ty, hv, hty⟩ := hgathered.returned hmem
        refine ⟨⟨.reg (s.nextReg + 1), ty⟩, ⟨s.nextReg + 1, rfl, ?_⟩, ?_⟩
        · simpa [ScriptFunction.objectDWords, ho] using hhidden hpos hty
        · simpa [hfirst] using hv
    | false =>
        have hfirst : function.popsReturnFirst = true := by
          simp [ScriptFunction.popsReturnFirst, hmem, hreturn]
        have ho : function.sysFuncIntf.callConv.hasObject = false := by simpa [hfirst] using hobject
        have hpos : 0 < function.hiddenSlots := by
          simp only [ScriptFunction.hiddenSlots, hfirst, if_true]
          omega
        obtain ⟨ty, hty, rfl, hresult⟩ := hstore hfirst
        have hpiece := @hhidden 0 (.ptr ty) hpos rfl
        refine ⟨⟨.reg s.nextReg, .ptr ty⟩, ⟨s.nextReg, rfl, ?_⟩, ?_⟩
        · simpa [ScriptFunction.objectDWords, ho] using hpiece
        · rw [if_neg Bool.false_ne_true]
          exact ⟨ty, hty, rfl, fun hne => (hresult hne).append_left _⟩
  · intro k type hk
    obtain ⟨ty, hty, hv, hk'⟩ := hgathered.parameters k type hk
    have hpiece := @hload (function.hiddenSlots + k) type ty (systemCallSlots_parameter hk) (by
      rw [List.getElem?_append_right (by rw [hlen, ScriptFunction.hiddenSlots]; omega), hlen,
        ScriptFunction.hiddenSlots]
      rw [← hk']
      congr 1
      omega)
    rw [hcallable.slotOffset_eq] at hpiece
    refine ⟨_, hv, hty, _, rfl, ?_⟩
    rw [ScriptFunction.hiddenSlots, Nat.add_assoc, ← Nat.add_assoc s.nextReg,
      ← Nat.add_assoc] at hpiece
    simpa using hpiece
  · omega

/-- A register is loaded in one place only. -/
theorem load_unique {ps : List Piece} (hnodup : (definedRegisters ps).Nodup) {r : ℕ} {ty ty' : Ty}
    {ptr ptr' : Operand} (h : Piece.instr (.load r ty ptr) ∈ ps)
    (h' : Piece.instr (.load r ty' ptr') ∈ ps) : ptr = ptr' := by
  by_contra hne
  have hpairs := List.pairwise_filterMap.mp hnodup
  have hsymm : Std.Symm fun p p' : Piece =>
      ∀ b, p.dst = some b → ∀ b', p'.dst = some b' → b ≠ b' :=
    ⟨fun p p' hp b hb b' hb' heq => hp b' hb' b hb heq.symm⟩
  exact hpairs.forall h h' (fun heq => hne (by injection heq with heq; injection heq)) r rfl r rfl rfl

/-- **A return address popped before an object is the object**: the object is then looked for
below it. -/
theorem emitSystemCall_swapped (hcallable : function.Callable)
    (hobject : function.sysFuncIntf.callConv.hasObject = true)
    (hfirst : function.popsReturnFirst = true) {ps : List Piece} {args : List Value}
    (hrun : Runs (emitSystemCall stack function) s () t)
    (hstack : stack.variableSpace + function.systemCallDWords ≤ s.stackPointer)
    (hbound : s.stackPointer ≤ stack.totalSpace) : ¬ Marshals stack function s t ps args := by
  intro h
  have hcdecl : ¬ (function.sysFuncIntf.callConv = .ICC_CDECL ∧
      function.sysFuncIntf.hostReturnInMemory = true) := by
    rintro ⟨hconv, -⟩
    rw [hconv] at hobject
    exact Bool.false_ne_true hobject
  obtain ⟨first, vs, types, ps', t', hrun', hout, -, hnative, hlen, hgathered, -⟩ :=
    emitSystemCall_runs hcallable hcdecl (onStack_systemCallSlots hcallable hstack hbound).poppable
  obtain rfl := (hrun.det hrun').2
  obtain rfl := List.append_cancel_left (hout.symm.trans h.out)
  obtain ⟨arg, rfl⟩ := List.length_eq_one_iff.mp (by simpa [hfirst] using hlen)
  obtain rfl : vs = args := by simpa [hnative] using h.call
  -- the object is in the register of the second pop, but must be loaded from the top of the stack
  obtain ⟨ty, hv, hty⟩ := hgathered.object hobject
  obtain ⟨v, hv', r, hr, htop⟩ := h.object hobject
  obtain rfl := Option.some.inj (hv.symm.trans hv')
  obtain rfl : s.nextReg + 1 = r := by simpa [hfirst] using hr
  have hpos : 1 < function.hiddenSlots := by
    simp only [ScriptFunction.hiddenSlots, ScriptFunction.loopHidden, hfirst, hobject, if_true]
    omega
  obtain ⟨hslot, hoffset⟩ := systemCallSlots_hidden hpos
  have hbelow : Piece.instr (.load (s.nextReg + 1) ty (stack.slotAddress (s.stackPointer - 2))) ∈
      popPieces stack s.nextReg s.stackPointer function.systemCallSlots ([arg] ++ types) ++ ps' := by
    have hty' : ([arg] ++ types)[1]? = some ty := by simpa using hty
    have := @mem_popPieces stack s.nextReg 1 s.stackPointer _ _ _ ty hslot hty'
    rw [hoffset] at this
    exact List.mem_append_left _ this
  have haddr := load_unique h.registers hbelow htop
  have hdwords := hcallable.hiddenSlots
  have hspace := stack.variableSpace_nonneg
  rw [ScriptFunction.systemCallDWords] at hstack
  simp only [StackFrame.slotAddress, if_neg (show ¬ s.stackPointer ≤ 0 by omega),
    if_neg (show ¬ s.stackPointer - 2 ≤ 0 by omega), Operand.frame.injEq, true_and] at haddr
  omega

/-- **A system call marshals its arguments as AngelScript laid them out iff** it is not an
`ICC_CDECL` call that returns in host memory, nor a call with an object whose return address is
popped first, and all of its slots are temporaries: the stack pointer is clamped at the
variables. -/
theorem emitSystemCall_marshals_iff (hcallable : function.Callable)
    (hbound : s.stackPointer ≤ stack.totalSpace) :
    (∃ t ps args, Runs (emitSystemCall stack function) s () t ∧
      Marshals stack function s t ps args) ↔
    ¬ (function.sysFuncIntf.callConv = .ICC_CDECL ∧
      function.sysFuncIntf.hostReturnInMemory = true) ∧
    ¬ (function.sysFuncIntf.callConv.hasObject = true ∧ function.doesReturnOnStack = true ∧
      function.sysFuncIntf.hostReturnInMemory = false) ∧
    stack.variableSpace + function.systemCallDWords ≤ s.stackPointer := by
  have hpops : function.popsReturnFirst = true ↔ function.doesReturnOnStack = true ∧
      function.sysFuncIntf.hostReturnInMemory = false := by
    simp [ScriptFunction.popsReturnFirst]
  rw [← hpops]
  constructor
  · rintro ⟨t, ps, args, hrun, hmarshals⟩
    have hclamped := stackPointer_ge_of_emitSystemCall hrun
    have hstack : stack.variableSpace + function.systemCallDWords ≤ s.stackPointer := by
      have := hmarshals.stackPointer
      omega
    refine ⟨fun hcdecl => ?_, fun hfirst => ?_, hstack⟩
    · exact emitSystemCall_cdecl_mem hcallable hcdecl hrun
    · exact emitSystemCall_swapped hcallable hfirst.1 hfirst.2 hrun hstack hbound hmarshals
  · rintro ⟨hcdecl, hobject, hstack⟩
    exact emitSystemCall_marshals hcallable hcdecl hobject hstack hbound

end Call

/-! ### Three native functions -/

/-- A native function with the given convention and signature. -/
def ScriptFunction.native (callConv : CallConv) (hostReturnInMemory doesReturnOnStack : Bool)
    (returnType : DataType) (parameterTypes : List DataType) : ScriptFunction :=
  { ScriptFunction.free 1 returnType parameterTypes 0 with
    funcType := .asFUNC_SYSTEM
    doesReturnOnStack := doesReturnOnStack
    sysFuncIntf := ⟨callConv, hostReturnInMemory, 0⟩ }

/-- `Foo Bar::f(bool, int64, Foo, int)`, a method that returns an object in the memory of its
host. -/
def nativeObjectMethod : ScriptFunction :=
  .native .ICC_THISCALL true true (.objectOf 2) (.primitive .ttBool :: severalSizes)

/-- `Foo f(bool, int64, Foo, int)`, a C function whose result is stored through the address it
returns to. -/
def nativeObjectFunction : ScriptFunction :=
  .native .ICC_CDECL false true (.objectOf 2) (.primitive .ttBool :: severalSizes)

/-- A method that returns a small object by value, which its host returns in registers. -/
def nativeSmallObjectMethod : ScriptFunction :=
  .native .ICC_THISCALL false true (.objectOf 1) []

theorem ScriptFunction.native_callable {callConv : CallConv} {hostReturnInMemory : Bool}
    {typeId : ℤ} {parameterTypes : List DataType} (hconv : callConv ≠ .ICC_OTHER)
    (hparameters : ∀ type ∈ parameterTypes, type.Supported) :
    (ScriptFunction.native callConv hostReturnInMemory true (.objectOf typeId)
      parameterTypes).Callable where
  convention := hconv
  parameters := hparameters
  returned := ⟨.ptr (.struct typeId), rfl⟩
  hostReturn _ := rfl

theorem boolSeveralSizes_supported :
    ∀ type ∈ DataType.primitive .ttBool :: severalSizes, type.Supported :=
  List.forall_mem_cons.mpr
    ⟨DataType.primitive_supported (by decide) (by decide), severalSizes_supported⟩

/-- Calls of the first two marshal their arguments, with what they take on the stack. -/
theorem emitSystemCall_marshals_iff_object :
    (∃ t ps args, Runs (emitSystemCall .roomy nativeObjectMethod) ⟨10, 0, none, []⟩ () t ∧
      Marshals .roomy nativeObjectMethod ⟨10, 0, none, []⟩ t ps args) ∧
    (∃ t ps args, Runs (emitSystemCall .roomy nativeObjectFunction) ⟨8, 0, none, []⟩ () t ∧
      Marshals .roomy nativeObjectFunction ⟨8, 0, none, []⟩ t ps args) := by
  have hmethod : nativeObjectMethod.Callable :=
    ScriptFunction.native_callable (by decide) boolSeveralSizes_supported
  have hfunction : nativeObjectFunction.Callable :=
    ScriptFunction.native_callable (by decide) boolSeveralSizes_supported
  exact ⟨(@emitSystemCall_marshals_iff .roomy nativeObjectMethod ⟨10, 0, none, []⟩ hmethod
      (by decide)).mpr (by decide),
    (@emitSystemCall_marshals_iff .roomy nativeObjectFunction ⟨8, 0, none, []⟩ hfunction
      (by decide)).mpr (by decide)⟩

/-- **Not every system call marshals its arguments**: a method that returns a small object by
value takes its return address for its object. -/
theorem emitSystemCall_not_marshals : ¬ ∀ (stack : StackFrame) (function : ScriptFunction)
    (s : EmitState), function.Callable → s.stackPointer ≤ stack.totalSpace →
    stack.variableSpace + function.systemCallDWords ≤ s.stackPointer →
    ∃ t ps args, Runs (emitSystemCall stack function) s () t ∧
      Marshals stack function s t ps args := by
  intro h
  have hcallable : nativeSmallObjectMethod.Callable :=
    ScriptFunction.native_callable (by decide) (List.forall_mem_nil _)
  obtain ⟨t, ps, args, hrun, hmarshals⟩ :=
    h .bare nativeSmallObjectMethod ⟨4, 0, none, []⟩ hcallable (by decide) (by decide)
  exact emitSystemCall_swapped hcallable rfl rfl hrun (by decide) (by decide) hmarshals

end Asllvm
