import Asllvm.Interpreter
import Asllvm.Prologue
import Asllvm.Lib.Cells

/-!
# The Variables of the VM in the Memory of an Activation

The variables of the VM are dwords one above the other. In the memory of an activation the locals are
dwords of the storage, which lie the other way round, and every parameter has an alloca of its own.

* `FunctionContext.HasVariable` — an offset is that of a variable of a type.
* `DwordAt` — where a dword of the VM lies.
* `Machine.Agrees` — a memory holds the variables and the value register of the VM.

## Main results

* `dwordAt_apart` — different dwords lie apart.
* `Machine.Agrees.read` — a variable is read as the VM has it.
* `Machine.Agrees.set`, `Machine.Agrees.setRegister` — storing to a variable or to the register.
* `agrees_entry` — the memory agrees with the VM when the function starts.
-/

open Slots StateExcept

namespace Asllvm

/-- The types of the variables: integers of 32 and of 64 bits. -/
def Ty.IsVariable (ty : Ty) : Prop := ty = .i32 ∨ ty = .i64

/-- The slots of the parameters of a function. -/
abbrev FunctionContext.slots (context : FunctionContext) : List DataType :=
  scriptCallSlots context.engine context.scriptFunction

/-- The offset is that of **a variable of the type**: a parameter, or a local that has all its dwords
in the variable space. -/
def FunctionContext.HasVariable (context : FunctionContext) (o : ℤ) (ty : Ty) : Prop :=
  if o ≤ 0 then ∃ (k : ℕ) (slot : DataType), context.slots[k]? = some slot ∧
    toLlvmType slot = .ok ty ∧ o = -slotOffset context.slots k
  else (ty.storeSize : ℤ) ≤ 4 * o ∧ o ≤ context.variableSpace

/-- **Where a dword of the VM lies**: in the storage, or in the alloca of its parameter. -/
inductive DwordAt (context : FunctionContext) (layout : FrameLayout) : ℤ → ℕ → Prop
  | local {o : ℤ} : 0 < o → o ≤ context.variableSpace →
      DwordAt context layout o (layout.address .storage + 4 * (context.totalSpace - o).toNat)
  | parameter {k i : ℕ} {slot : DataType} {ty : Ty} : context.slots[k]? = some slot →
      toLlvmType slot = .ok ty → ty.IsVariable → 4 * i + 4 ≤ ty.storeSize →
      DwordAt context layout (-slotOffset context.slots k - i)
        (layout.address (.parameter (-slotOffset context.slots k)) + 4 * i)

/-- **The memory holds the variables and the value register** of the VM. -/
structure Machine.Agrees (context : FunctionContext) (layout : FrameLayout) (m : Machine)
    (mem : Bytes.Mem) : Prop where
  dwords : Cells.Holds 4 (DwordAt context layout) mem (BitVec.setWidth 64 ∘ m.dwords)
  valueRegister : Bytes.read mem (layout.address .valueRegister) 8 = m.valueRegister

/-- A translated function over supported types, and an activation of it. -/
structure ActivatesFunction (context : FunctionContext) (T : Translation) (env : Env) : Prop where
  supported : context.scriptFunction.Supported context.engine
  returned : ∃ ty, toLlvmType context.scriptFunction.returnType = .ok ty
  allocates : ∃ e e', Runs (emitAllocateLocalStructures context) e T.stack e'
  activates : Activates T env

section Frame

variable {context : FunctionContext} {T : Translation} {env : Env} {o : ℤ} {ty : Ty} {k : ℕ}
  {slot : DataType}

theorem ActivatesFunction.context_eq (h : ActivatesFunction context T env) :
    T.stack.toFunctionContext = context := by
  obtain ⟨e, e', hlocal⟩ := h.allocates
  exact (emitAllocateLocalStructures_stack hlocal).1

theorem ActivatesFunction.lookup (h : ActivatesFunction context T env)
    (hslot : context.slots[k]? = some slot) (hty : toLlvmType slot = .ok ty) :
    T.stack.parameters.lookup (-slotOffset context.slots k : ℤ) =
      some ⟨hiddenArguments context.scriptFunction + k, ty⟩ := by
  obtain ⟨e, e', hlocal⟩ := h.allocates
  exact emitAllocateLocalStructures_lookup h.supported hlocal hslot hty

/-- A parameter that is a variable has the dwords of its slot. -/
theorem ActivatesFunction.size_eq (h : ActivatesFunction context T env)
    (hslot : context.slots[k]? = some slot) (hty : toLlvmType slot = .ok ty)
    (hvariable : ty.IsVariable) : ty.storeSize = 4 * slot.sizeOnStackDWords := by
  have hsize := storeSize_of_supported (h.supported.slots slot (List.mem_of_getElem? hslot)) hty
  split at hsize
  · rcases hvariable with rfl | rfl
    · exact absurd hsize.1 (by decide)
    · exact absurd hsize.1 (by decide)
  · exact hsize.1

/-- **A variable lies in the frame.** -/
theorem FunctionContext.HasVariable.inFrame (hvariable : context.HasVariable o ty)
    (h : ActivatesFunction context T env) : T.stack.InFrame o ty.storeSize := by
  rw [HasVariable] at hvariable
  rw [StackFrame.InFrame]
  split at hvariable
  · obtain ⟨k, slot, hslot, hty, rfl⟩ := hvariable
    rw [if_pos (by assumption)]
    exact ⟨_, h.lookup hslot hty, le_rfl⟩
  · have hspace := context.variableSpace_lt_totalSpace
    rw [if_neg (by assumption), h.context_eq]
    omega

/-- **Where the dwords of a variable lie.** -/
theorem FunctionContext.HasVariable.dwordAt (hvariable : context.HasVariable o ty)
    (h : ActivatesFunction context T env) (hty : ty.IsVariable) {i : ℕ}
    (hi : 4 * i + 4 ≤ ty.storeSize) :
    DwordAt context env.layout (o - i) (T.stack.byteAddress env.layout o + 4 * i) := by
  rw [HasVariable] at hvariable
  rw [StackFrame.byteAddress]
  split at hvariable
  · obtain ⟨k, slot, hslot, hslotTy, rfl⟩ := hvariable
    rw [if_pos (by assumption)]
    exact .parameter hslot hslotTy hty hi
  · have hspace := context.variableSpace_lt_totalSpace
    rw [if_neg (by assumption), h.context_eq, Nat.add_assoc,
      show 4 * (context.totalSpace - o).toNat + 4 * i = 4 * (context.totalSpace - (o - i)).toNat by
        omega]
    exact .local (by omega) (by omega)

/-- The alloca a dword lies in, and where it lies in it. -/
theorem DwordAt.within (h : ActivatesFunction context T env) {a : ℕ}
    (hdword : DwordAt context env.layout o a) :
    ∃ slot, env.layout.address slot ≤ a ∧
      a + 4 ≤ env.layout.address slot + env.layout.size slot ∧
      (slot = .storage ∨ ∃ o, slot = .parameter o) := by
  cases hdword with
  | «local» hpos hle =>
      have hspace := context.variableSpace_lt_totalSpace
      refine ⟨.storage, Nat.le_add_right _ _, ?_, .inl rfl⟩
      rw [h.activates.storage, h.context_eq]
      omega
  | parameter hslot hty _ hi =>
      refine ⟨.parameter _, Nat.le_add_right _ _, ?_, .inr ⟨_, rfl⟩⟩
      rw [h.activates.parameter _ _ (h.lookup hslot hty)]
      dsimp only
      omega

/-- A dword lies apart from the two registers. -/
theorem DwordAt.apart_register (h : ActivatesFunction context T env) {a : ℕ}
    (hdword : DwordAt context env.layout o a) {register : AllocaId}
    (hregister : register = .valueRegister ∨ register = .objectRegister) :
    a + 4 ≤ env.layout.address register ∨
      env.layout.address register + env.layout.size register ≤ a := by
  obtain ⟨slot, hlow, hhigh, hslot⟩ := hdword.within h
  have hne : slot ≠ register := by
    rcases hslot with rfl | ⟨o, rfl⟩ <;> rcases hregister with rfl | rfl <;>
      exact AllocaId.noConfusion
  have hapart := env.layout.disjoint slot register hne
  omega

/-- The dwords of the parameters are told apart by their slots and where they lie in them. -/
theorem ActivatesFunction.slot_unique (h : ActivatesFunction context T env) {k' i i' : ℕ}
    {slot' : DataType} {ty' : Ty} (hslot : context.slots[k]? = some slot)
    (hty : toLlvmType slot = .ok ty) (hvariable : ty.IsVariable) (hi : 4 * i + 4 ≤ ty.storeSize)
    (hslot' : context.slots[k']? = some slot') (hty' : toLlvmType slot' = .ok ty')
    (hvariable' : ty'.IsVariable) (hi' : 4 * i' + 4 ≤ ty'.storeSize)
    (heq : (-slotOffset context.slots k - i : ℤ) = -slotOffset context.slots k' - i') :
    k = k' ∧ i = i' := by
  have hsize := h.size_eq hslot hty hvariable
  have hsize' := h.size_eq hslot' hty' hvariable'
  rcases Nat.lt_trichotomy k k' with hlt | rfl | hlt
  · have hle : slotOffset context.slots k + slot.sizeOnStackDWords ≤
        slotOffset context.slots k' := offset_add_size_le_offset DataType.sizeOnStackDWords hlt hslot
    omega
  · exact ⟨rfl, by omega⟩
  · have hle : slotOffset context.slots k' + slot'.sizeOnStackDWords ≤
        slotOffset context.slots k := offset_add_size_le_offset DataType.sizeOnStackDWords hlt hslot'
    omega

/-- **Different dwords of the VM lie apart.** -/
theorem dwordAt_apart (h : ActivatesFunction context T env) :
    Cells.Apart 4 (DwordAt context env.layout) where
  unique := by
    intro o a b ha hb
    generalize ho : o = o' at hb
    cases ha with
    | «local» hpos hle =>
        cases hb with
        | «local» => rw [ho]
        | parameter => omega
    | parameter hslot hty hvariable hi =>
        cases hb with
        | «local» => omega
        | parameter hslot' hty' hvariable' hi' =>
            obtain ⟨rfl, rfl⟩ :=
              h.slot_unique hslot hty hvariable hi hslot' hty' hvariable' hi' ho
            rfl
  disjoint := by
    intro o o' a b ha hb hne
    have hspace := context.variableSpace_lt_totalSpace
    cases ha with
    | «local» hpos hle =>
        cases hb with
        | «local» hpos' hle' => omega
        | @parameter k' i' slot' ty' hslot' hty' hvariable' hi' =>
            have hapart := env.layout.disjoint .storage
              (.parameter (-slotOffset context.slots k')) AllocaId.noConfusion
            rw [h.activates.storage, h.context_eq,
              h.activates.parameter _ _ (h.lookup hslot' hty')] at hapart
            dsimp only at hapart
            omega
    | @parameter k i slot ty hslot hty hvariable hi =>
        have hsize := h.activates.parameter _ _ (h.lookup hslot hty)
        dsimp only at hsize
        cases hb with
        | «local» hpos' hle' =>
            have hapart := env.layout.disjoint .storage
              (.parameter (-slotOffset context.slots k)) AllocaId.noConfusion
            rw [h.activates.storage, h.context_eq, hsize] at hapart
            omega
        | @parameter k' i' slot' ty' hslot' hty' hvariable' hi' =>
            have hsize' := h.activates.parameter _ _ (h.lookup hslot' hty')
            dsimp only at hsize'
            by_cases hslots : (-slotOffset context.slots k : ℤ) = -slotOffset context.slots k'
            · rw [hslots] at hne ⊢
              omega
            · have hapart := env.layout.disjoint (.parameter (-slotOffset context.slots k))
                (.parameter (-slotOffset context.slots k')) fun heq =>
                  hslots (AllocaId.parameter.inj heq)
              omega

end Frame

/-! ### Reading and writing -/

section Access

variable {context : FunctionContext} {T : Translation} {env : Env} {o : ℤ} {ty : Ty}
  {m : Machine} {mem : Bytes.Mem} {v : Word}

/-- Two dwords are a word. -/
theorem append_eq_or (high low : BitVec 32) :
    (high ++ low : BitVec 64) = high.setWidth 64 <<< 32 ||| low.setWidth 64 := by
  apply BitVec.eq_of_getLsbD_eq
  intro i hi
  rw [BitVec.getLsbD_append, BitVec.getLsbD_or, BitVec.getLsbD_shiftLeft, BitVec.getLsbD_setWidth,
    BitVec.getLsbD_setWidth]
  by_cases hlow : i < 32
  · simp [hlow, hi]
  · simp [hlow, hi, show i - 32 < 64 by omega, BitVec.getLsbD_of_ge low i (by omega)]

/-- Eight bytes are two dwords. -/
theorem read_two_dwords {a : ℕ} {high low : BitVec 32} (hhigh : Bytes.read mem (a + 4) 4 = high.setWidth 64)
    (hlow : Bytes.read mem a 4 = low.setWidth 64) : Bytes.read mem a 8 = high ++ low := by
  rw [show 8 = 4 + 4 from rfl, Bytes.read_add, hhigh, hlow, append_eq_or]

/-- **A variable is read as the VM has it.** -/
theorem Machine.Agrees.read (h : m.Agrees context env.layout mem)
    (hframe : ActivatesFunction context T env) (hvariable : context.HasVariable o ty)
    (hty : ty.IsVariable) :
    Bytes.read mem (T.stack.byteAddress env.layout o) ty.storeSize = m.value o ty := by
  rcases hty with rfl | rfl
  · have hlow := hvariable.dwordAt hframe (.inl rfl) (i := 0) (by decide)
    rw [Nat.cast_zero, Int.sub_zero] at hlow
    exact h.dwords _ _ hlow
  · have hlow := hvariable.dwordAt hframe (.inr rfl) (i := 0) (by decide)
    have hhigh := hvariable.dwordAt hframe (.inr rfl) (i := 1) (by decide)
    rw [Nat.cast_zero, Int.sub_zero] at hlow
    exact read_two_dwords (h.dwords _ _ hhigh) (h.dwords _ _ hlow)

/-- The value of a variable is the one the VM has. -/
theorem Machine.Agrees.valueOf (h : m.Agrees context env.layout mem)
    (hframe : ActivatesFunction context T env) (hvariable : context.HasVariable o ty)
    (hty : ty.IsVariable) :
    T.stack.valueOf env.layout mem o ty = (m.value o ty).setWidth ty.bits := by
  rw [StackFrame.valueOf, h.read hframe hvariable hty]

/-- A dword is stored. -/
theorem holds_write_dword (hframe : ActivatesFunction context T env) {dwords : ℤ → BitVec 32} {a : ℕ}
    (h : Cells.Holds 4 (DwordAt context env.layout) mem (BitVec.setWidth 64 ∘ dwords))
    (hdword : DwordAt context env.layout o a) (v : Word) :
    Cells.Holds 4 (DwordAt context env.layout) (Bytes.write mem a 4 v)
      (BitVec.setWidth 64 ∘ Function.update dwords o (v.setWidth 32)) := by
  rw [Function.comp_update]
  exact h.write (dwordAt_apart hframe) hdword v

/-- The value register is not part of a variable. -/
theorem FunctionContext.HasVariable.apart_valueRegister (hvariable : context.HasVariable o ty)
    (hframe : ActivatesFunction context T env) :
    env.layout.address .valueRegister + 8 ≤ T.stack.byteAddress env.layout o ∨
      T.stack.byteAddress env.layout o + ty.storeSize ≤ env.layout.address .valueRegister := by
  obtain ⟨hlow, hhigh⟩ := (hvariable.inFrame hframe).within hframe.activates
  have hne : StackFrame.slot o ≠ .valueRegister := by
    rw [StackFrame.slot]
    split <;> exact AllocaId.noConfusion
  have hapart := env.layout.disjoint _ _ hne
  rw [hframe.activates.valueRegister] at hapart
  omega

/-- **A variable is stored.** -/
theorem Machine.Agrees.set (h : m.Agrees context env.layout mem)
    (hframe : ActivatesFunction context T env) (hvariable : context.HasVariable o ty)
    (hty : ty.IsVariable) (v : Word) : (m.set o ty v).Agrees context env.layout
      (Bytes.write mem (T.stack.byteAddress env.layout o) ty.storeSize v) where
  dwords := by
    have hlow := hvariable.dwordAt hframe hty (i := 0) (by rcases hty with rfl | rfl <;> decide)
    rw [Nat.cast_zero, Int.sub_zero, Nat.mul_zero, Nat.add_zero] at hlow
    rcases hty with rfl | rfl
    · exact holds_write_dword hframe h.dwords hlow v
    · -- the high dword is stored above the low one
      have hhigh := hvariable.dwordAt hframe (.inr rfl) (i := 1) (by decide)
      rw [show Ty.i64.storeSize = 4 + 4 from rfl, Bytes.write_add]
      exact holds_write_dword hframe (holds_write_dword hframe h.dwords hlow v) hhigh (v >>> 32)
  valueRegister := by
    rw [Bytes.read_write_disjoint (hvariable.apart_valueRegister hframe)]
    exact h.valueRegister

/-- The low dword of a word is stored. -/
theorem read_write_low_dword {a : ℕ} {w : Word} (h : Bytes.read mem a 8 = w) (v : Word) :
    Bytes.read (Bytes.write mem a 4 v) a 8 = w.extractLsb' 32 32 ++ v.setWidth 32 := by
  have hshift : ((Bytes.read mem a 8 >>> (8 * 4)).setWidth (8 * 4)).setWidth 64 =
      Bytes.read mem (a + 4) 4 := Bytes.setWidth_shift_read (by decide) (by decide)
  refine read_two_dwords ?_ Bytes.read_write_same
  rw [Bytes.read_write_disjoint (by omega), ← hshift, h]
  rfl

/-- **The value register is stored**, or its low dword. -/
theorem Machine.Agrees.setRegister (h : m.Agrees context env.layout mem)
    (hframe : ActivatesFunction context T env) (hty : ty.IsVariable) (v : Word) :
    (m.setRegister ty v).Agrees context env.layout
      (Bytes.write mem (env.layout.address .valueRegister) ty.storeSize v) where
  dwords := by
    refine h.dwords.write_elsewhere (fun o a hdword => ?_) v
    have hapart := hdword.apart_register hframe (.inl rfl)
    have hsize := ty.storeSize_le
    rw [hframe.activates.valueRegister] at hapart
    omega
  valueRegister := by
    rcases hty with rfl | rfl
    · exact read_write_low_dword h.valueRegister v
    · rw [show Ty.i64.storeSize = 8 from rfl, Bytes.read_write_same, BitVec.setWidth_eq]
      exact BitVec.setWidth_eq v

end Access

/-! ### The start of a function -/

/-- **The dwords of an argument**, by induction on the slots. -/
theorem argumentDword_eq {slots : List DataType} {args : List Word} {k i : ℕ} {slot : DataType}
    (hslot : slots[k]? = some slot) (hi : i < slot.sizeOnStackDWords) :
    Machine.argumentDword slots args (slotOffset slots k + i) =
      (args.getD k 0 >>> (32 * i)).setWidth 32 := by
  induction slots generalizing k args with
  | nil => simp at hslot
  | cons first slots ih =>
      rw [Machine.argumentDword]
      cases k with
      | zero =>
          obtain rfl : first = slot := by simpa using hslot
          rw [slotOffset, offset_zero, Nat.zero_add, if_pos hi]
          cases args <;> rfl
      | succ k =>
          have hrest := @ih args.tail k (by simpa using hslot)
          rw [slotOffset, offset_cons_succ, if_neg (by omega),
            show first.sizeOnStackDWords + offset DataType.sizeOnStackDWords slots k + i -
              first.sizeOnStackDWords = slotOffset slots k + i by rw [slotOffset]; omega, hrest]
          cases args <;> rfl

section Start

variable {context : FunctionContext} {T : Translation} {env : Env} {mem : Bytes.Mem}

/-- A dword of a value that was stored. -/
theorem shift_truncate {ty : Ty} (hty : ty.IsVariable) {i : ℕ} (hi : 4 * i + 4 ≤ ty.storeSize)
    (v : Word) : (ty.truncate v >>> (8 * (4 * i))).setWidth (8 * 4) =
      (v >>> (32 * i)).setWidth (8 * 4) := by
  rw [show 8 * (4 * i) = 32 * i by omega]
  rcases hty with rfl | rfl
  · obtain rfl : i = 0 := by
      rw [show Ty.i32.storeSize = 4 from rfl] at hi
      omega
    rw [Nat.mul_zero, BitVec.ushiftRight_zero, BitVec.ushiftRight_zero]
    exact Ty.setWidth_truncate .i32 v
  · rw [Ty.truncate, show Ty.i64.bits = 64 from rfl, BitVec.setWidth_eq, BitVec.setWidth_eq]

/-- **The memory agrees with the VM at the start of a function.** -/
theorem agrees_entry (hframe : ActivatesFunction context T env) {tys : List Ty}
    (htys : context.slots.mapM toLlvmType = .ok tys)
    (harguments : HoldsArguments T.stack env (env.layout.cleared mem)
      (hiddenArguments context.scriptFunction) 0 context.slots tys) :
    (Machine.entry context env.args).Agrees context env.layout (env.layout.cleared mem) where
  dwords := by
    intro o a hdword
    rw [Function.comp_apply, Machine.entry]
    dsimp only
    cases hdword with
    | «local» hpos hle =>
        have hspace := context.variableSpace_lt_totalSpace
        have hinFrame : T.stack.InFrame o 4 :=
          StackFrame.inFrame_storage (by omega) (by rw [hframe.context_eq]; omega) (by omega)
        have hzero := FrameLayout.cleared_storage hframe.activates mem hpos hinFrame
        rw [StackFrame.byteAddress, if_neg (by omega), hframe.context_eq] at hzero
        rw [if_neg (by omega), hzero]
        rfl
    | @parameter k i slot ty hslot hty hvariable hi =>
        have hsize := hframe.size_eq hslot hty hvariable
        obtain ⟨ty', hget, hty'⟩ : ∃ ty', tys[k]? = some ty' ∧ toLlvmType slot = .ok ty' := by
          obtain ⟨hk, rfl⟩ := List.getElem?_eq_some_iff.mp hslot
          have hforall := mapM_eq_ok.mp htys
          have hk' : k < tys.length := hforall.length_eq ▸ hk
          exact ⟨_, List.getElem?_eq_getElem hk', hforall.get hk hk'⟩
        obtain rfl := Except.ok.inj (hty.symm.trans hty')
        obtain ⟨-, hword⟩ := harguments k slot ty hslot hget
        rw [Int.zero_sub, StackFrame.slotWord, StackFrame.byteAddress, if_pos (by omega)] at hword
        -- the alloca holds the argument, dword by dword
        have hshift : ((Bytes.read (env.layout.cleared mem)
            (env.layout.address (.parameter (-slotOffset context.slots k))) ty.storeSize >>>
              (8 * (4 * i))).setWidth (8 * 4)).setWidth 64 = Bytes.read _ _ 4 :=
          Bytes.setWidth_shift_read hi ty.storeSize_le
        rw [show 8 * (4 * i) = 32 * i by omega, ← shift_truncate hvariable hi, hword,
          shift_truncate hvariable hi] at hshift
        have hindex : (-(-slotOffset context.slots k - i : ℤ)).toNat = slotOffset context.slots k + i := by
          omega
        rw [if_pos (by omega), hindex, argumentDword_eq hslot (by omega), List.getD_eq_getElem?_getD,
          List.getElem?_drop, ← List.getD_eq_getElem?_getD]
        exact hshift.symm
  valueRegister := FrameLayout.cleared_valueRegister hframe.activates mem

end Start

end Asllvm
