import Asllvm.Exec
import Asllvm.ScriptCalls

/-!
# The Two Ends of a Script Call

What `emit_script_call` passes and what the frame of the callee makes of it, side by side.

Slot by slot the two ends agree for every signature (`callFrames_agree`): the arity and the
types, the argument each slot is passed as, and the offset it gets. What a callee can *read*
through such an offset depends on the alloca behind it. A by-value `bool` or 8- or 16-bit
integer is held in one or two bytes, while the slot the caller pushed is a full dword, so the
callee does not see that dword. Every other slot is as large as its alloca.

## Main results

* `storeSize_of_supported` — the size of the alloca of a slot: its dwords, unless it is narrow.
* `receivesDWords_iff` — a value passed at a type arrives dword by dword iff it is not narrow.
* `callFrames_agree_and_exact_iff` — the two ends agree, and the callee reads exactly the dwords
  pushed, iff no slot is narrow.
-/

open StateExcept Slots

namespace Asllvm

/-- A by-value primitive of less than a dword. -/
def DataType.Narrow (type : DataType) : Prop :=
  type.isPrimitive = true ∧ type.isReference = false ∧
    type.tokenType ∈ [TokenType.ttBool, .ttInt8, .ttUInt8, .ttInt16, .ttUInt16]

instance (type : DataType) : Decidable type.Narrow := inferInstanceAs (Decidable (_ ∧ _ ∧ _))

/-! ### The size of a slot's alloca -/

/-- The LLVM type of a supported slot has the size of the slot, unless the slot is narrow: then
it takes fewer bytes than the dword of the slot. -/
theorem storeSize_of_supported {type : DataType} {ty : Ty} (hsupported : type.Supported)
    (hty : toLlvmType type = .ok ty) :
    if type.Narrow then ty.storeSize < 4 ∧ type.sizeOnStackDWords = 1
    else ty.storeSize = 4 * type.sizeOnStackDWords ∧ ty.bits = 8 * ty.storeSize := by
  have hsize := hsupported.size
  unfold toLlvmType at hty
  by_cases hprim : type.isPrimitive = true
  · obtain ⟨hother, hvoid⟩ := hsupported.token hprim
    cases href : type.isReference with
    | true =>
        simp only [hprim, href, if_true, except_bind_ok] at hty
        obtain ⟨base, -, hbase⟩ := hty
        obtain rfl := Except.ok.inj hbase
        have hnarrow : ¬ type.Narrow := fun h => by simp [h.2.1] at href
        rw [if_neg hnarrow, hsize, if_neg (by simp [href])]
        exact ⟨rfl, rfl⟩
    | false =>
        have hvoid := hvoid href
        cases htok : type.tokenType <;>
          simp_all [DataType.Narrow, TokenType.toLlvmType, TokenType.sizeInDWords] <;>
          subst hty <;> simp [Ty.storeSize, Ty.bits]
  · have hptr : ∃ id, ty = .ptr (.struct id) := by
      obtain ⟨hinfo, hkind⟩ := hsupported.object (by simpa using hprim)
      obtain ⟨id, hid⟩ := Option.isSome_iff_exists.mp hinfo
      simp only [hprim, hkind, hid, if_true, if_false, Bool.false_eq_true] at hty
      exact ⟨id, (Except.ok.inj hty).symm⟩
    obtain ⟨id, rfl⟩ := hptr
    have hnarrow : ¬ type.Narrow := fun h => hprim h.1
    rw [if_neg hnarrow, hsize, if_neg (by simp [hprim])]
    exact ⟨rfl, rfl⟩

/-! ### What arrives -/

/-- The `d` dwords at `a`, passed as a value of type `ty` and stored in an alloca of that type at
`b`, are there again: each one lies inside the alloca and holds what was pushed. -/
def ReceivesDWords (ty : Ty) (d : ℕ) : Prop :=
  ∀ j < d, 4 * j + 4 ≤ ty.storeSize ∧ ∀ mem mem' a b,
    Bytes.read (Bytes.write mem' b ty.storeSize
      (ty.truncate (ty.truncate (Bytes.read mem a ty.storeSize)))) (b + 4 * j) 4 =
    Bytes.read mem (a + 4 * j) 4

/-- A value arrives dword by dword iff its slot is not narrow. -/
theorem receivesDWords_iff {type : DataType} {ty : Ty} (hsupported : type.Supported)
    (hty : toLlvmType type = .ok ty) :
    ReceivesDWords ty type.sizeOnStackDWords ↔ ¬ type.Narrow := by
  have hsize := storeSize_of_supported hsupported hty
  have hle : ty.storeSize ≤ 8 := by cases ty <;> simp [Ty.storeSize]
  by_cases hnarrow : type.Narrow
  · rw [if_pos hnarrow] at hsize
    refine ⟨fun h => ?_, fun h => absurd hnarrow h⟩
    have := (h 0 (by omega)).1
    omega
  · rw [if_neg hnarrow] at hsize
    refine ⟨fun _ => hnarrow, fun _ j hj => ⟨by omega, fun mem mem' a b => ?_⟩⟩
    have htrunc : ∀ m a, ty.truncate (Bytes.read m a ty.storeSize) =
        Bytes.read m a ty.storeSize := by
      intro m a
      have h : ((Bytes.read m a ty.storeSize >>> (8 * 0)).setWidth (8 * ty.storeSize)).setWidth 64 =
          Bytes.read m (a + 0) ty.storeSize := Bytes.setWidth_shift_read (by omega) hle
      rw [Nat.mul_zero, BitVec.ushiftRight_zero, Nat.add_zero, ← hsize.2] at h
      exact h
    rw [htrunc, htrunc, Bytes.read_write_inside (by omega), Bytes.setWidth_shift_read (by omega) hle]

/-! ### The agreement -/

/-- **The two ends of a script call agree**: the caller's code takes `s` to `t` and has read `n`
dwords; the callee's frame has the given parameters, set up by `prologue`. -/
structure CallFramesAgree (stack : StackFrame) (callee : ScriptFunction) (s t : EmitState)
    (n : ℕ) (parameters : List (ℤ × Parameter)) (prologue : List Piece) : Prop where
  /-- The arguments have the arity and the types of the signature; the one of a slot is popped at
  the slot's offset, and is what the callee stores at that offset of its own frame. -/
  arguments : ∃ types args r target ps,
    getScriptFunctionType stack.engine callee = .ok types ∧
    t.out = s.out ++ ps ∧ (definedRegisters ps).Nodup ∧
    Piece.instr (.call (some r) (.script target) args) ∈ ps ∧ args.map Value.ty = types ∧
    ∀ k type, (scriptCallSlots stack.engine callee)[k]? = some type →
      ∃ v, args[hiddenArguments callee + k]? = some v ∧ toLlvmType type = .ok v.ty ∧
        LoadedFrom ps v (stack.slotAddress
          (s.stackPointer - slotOffset (scriptCallSlots stack.engine callee) k)) ∧
        StoredAt types parameters prologue
          (-slotOffset (scriptCallSlots stack.engine callee) k)
          (hiddenArguments callee + k) type
  /-- No two slots share an offset. -/
  offsets : ∀ j k type, j < k → (scriptCallSlots stack.engine callee)[j]? = some type →
    slotOffset (scriptCallSlots stack.engine callee) j ≠
      slotOffset (scriptCallSlots stack.engine callee) k
  /-- The dwords read are those of the slots, and the stack pointer drops by them. -/
  read : n = slotDWords (scriptCallSlots stack.engine callee)
  stackPointer : t.stackPointer = s.stackPointer - n

/-- Through every parameter offset the callee reads exactly the dwords pushed for the slot. -/
def ReadsPushedDWords (engine : Engine) (callee : ScriptFunction)
    (parameters : List (ℤ × Parameter)) : Prop :=
  ∀ k type parameter, (scriptCallSlots engine callee)[k]? = some type →
    parameters.lookup (-slotOffset (scriptCallSlots engine callee) k : ℤ) = some parameter →
    ReceivesDWords parameter.ty type.sizeOnStackDWords

variable {stack : StackFrame} {callee : ScriptFunction} {context : FunctionContext}
  {s t s₀ t₀ : EmitState} {n : ℕ} {parameters : List (ℤ × Parameter)}

/-- The types of popped values are those of the signature. -/
theorem types_eq_of_poppedFrom {ps : List Piece} {sp : ℤ} {o : ℕ} {slots : List DataType}
    {vs : List Value} {types : List Ty}
    (h : AtOffsets DataType.sizeOnStackDWords (PoppedFrom stack ps sp) o slots vs)
    (htypes : List.Forall₂ (fun type ty => toLlvmType type = .ok ty) slots types) :
    vs.map Value.ty = types := by
  induction h generalizing types with
  | nil => cases htypes; rfl
  | cons hpopped _ ih =>
      cases htypes with
      | cons hty htypes =>
          rw [List.map_cons, ih htypes, Except.ok.inj (hpopped.1.symm.trans hty)]

/-- The two ends agree for every supported signature and every depth of the caller. -/
theorem callFrames_agree (hsupported : callee.Supported stack.engine)
    (hcontext : context.engine = stack.engine ∧ context.scriptFunction = callee)
    (hcall : Runs (emitScriptCall stack callee) s n t)
    (hframe : Runs (allocateParameterStorage context) s₀ parameters t₀) :
    ∃ prologue, t₀.out = s₀.out ++ prologue ∧
      CallFramesAgree stack callee s t n parameters prologue := by
  obtain ⟨hengine, hfunction⟩ := hcontext
  obtain ⟨types, hidden, vs, r, target, ps, htypes, hhidden, hlen, hout, hvalues, hmem, hread,
    hsp⟩ := emitScriptCall_code hsupported hcall
  obtain ⟨types', prologue, htypes', rfl, hstored⟩ :=
    allocateParameterStorage_code (by rw [hengine, hfunction]; exact hsupported) hframe
  rw [hengine, hfunction] at htypes' hstored
  obtain rfl : types = types' := by rw [htypes] at htypes'; exact Except.ok.inj htypes'
  obtain ⟨first, slotTypes, rfl, hfirst, hslotTypes⟩ := getScriptFunctionType_eq_ok htypes
  obtain ⟨qs, hqs⟩ := emitted_of_runs hcall
  obtain rfl : ps = qs := List.append_cancel_left (hout.symm.trans hqs.out)
  have hget : ∀ k type, (scriptCallSlots stack.engine callee)[k]? = some type →
      ∃ v, vs[k]? = some v ∧ PoppedFrom stack ps s.stackPointer
        (slotOffset (scriptCallSlots stack.engine callee) k) type v := by
    intro k type hk
    obtain ⟨v, hv, hpopped⟩ := hvalues.get hk
    exact ⟨v, hv, by rwa [Nat.zero_add] at hpopped⟩
  have hvtypes : vs.map Value.ty = slotTypes :=
    types_eq_of_poppedFrom hvalues hslotTypes
  refine ⟨prologue, rfl, ⟨_, hidden ++ vs, r, target, ps, htypes, hout, ?_, hmem, ?_, ?_⟩, ?_,
    hread, hsp⟩
  · rw [hqs.registers]
    exact List.nodup_range'
  · rw [List.map_append, hhidden, hvtypes, ← hfirst, List.take_left]
  · intro k type hk
    obtain ⟨v, hv, hty, hloaded⟩ := hget k type hk
    refine ⟨v, ?_, hty, hloaded, hstored k type hk⟩
    rw [← hlen, List.getElem?_append_right (Nat.le_add_right _ _), Nat.add_sub_cancel_left, hv]
  · intro j k type hjk hj
    have hpos := (hsupported.slots type (List.mem_of_getElem? hj)).size_pos
    exact Nat.ne_of_lt (offset_strictMono _ hjk hj hpos)

/-- What the callee reads is exact iff no slot is narrow. -/
theorem readsPushedDWords_iff (hsupported : callee.Supported stack.engine)
    (hcontext : context.engine = stack.engine ∧ context.scriptFunction = callee)
    (hframe : Runs (allocateParameterStorage context) s₀ parameters t₀) :
    ReadsPushedDWords stack.engine callee parameters ↔
      ∀ type ∈ scriptCallSlots stack.engine callee, ¬ type.Narrow := by
  obtain ⟨hengine, hfunction⟩ := hcontext
  obtain ⟨types, prologue, -, -, hstored⟩ :=
    allocateParameterStorage_code (by rw [hengine, hfunction]; exact hsupported) hframe
  rw [hengine, hfunction] at hstored
  constructor
  · intro h type hmem
    obtain ⟨k, hk, hget⟩ := List.getElem_of_mem hmem
    have hk' : (scriptCallSlots stack.engine callee)[k]? = some type := by
      rw [List.getElem?_eq_getElem hk, hget]
    obtain ⟨ty, -, hty, -, hlookup, -⟩ := hstored k type hk'
    exact (receivesDWords_iff (hsupported.slots type hmem) hty).mp (h k type _ hk' hlookup)
  · intro h k type parameter hk hlookup
    have hmem := List.mem_of_getElem? hk
    obtain ⟨ty, -, hty, -, hlookup', -⟩ := hstored k type hk
    obtain rfl := Option.some.inj (hlookup.symm.trans hlookup')
    exact (receivesDWords_iff (hsupported.slots type hmem) hty).mpr (h type hmem)

/-- **The two ends of a script call agree, and the callee reads exactly the dwords pushed for
each slot, iff no slot is narrow**: no parameter is a `bool` or an 8- or 16-bit integer passed
by value. -/
theorem callFrames_agree_and_exact_iff (hsupported : callee.Supported stack.engine)
    (hcontext : context.engine = stack.engine ∧ context.scriptFunction = callee)
    (hcall : Runs (emitScriptCall stack callee) s n t)
    (hframe : Runs (allocateParameterStorage context) s₀ parameters t₀) :
    ((∃ prologue, t₀.out = s₀.out ++ prologue ∧
        CallFramesAgree stack callee s t n parameters prologue) ∧
      ReadsPushedDWords stack.engine callee parameters) ↔
    ∀ type ∈ scriptCallSlots stack.engine callee, ¬ type.Narrow := by
  rw [and_iff_right (callFrames_agree hsupported hcontext hcall hframe)]
  exact readsPushedDWords_iff hsupported hcontext hframe

/-- A frame without variables, in an engine without functions. -/
def StackFrame.bare : StackFrame where
  engine := .ofFunctions []
  config := ⟨false, true⟩
  scriptFunction := .free 0 (.primitive .ttVoid) [] 0
  parameters := []

/-- `void f(t)` for a primitive `t`. -/
def ScriptFunction.taking (token : TokenType) : ScriptFunction :=
  .free 1 (.primitive .ttVoid) [.primitive token] 0

theorem ScriptFunction.taking_supported {engine : Engine} {token : TokenType}
    (hvoid : token ≠ .ttVoid) (hother : token ≠ .ttOther) :
    (ScriptFunction.taking token).Supported engine where
  slots type htype := by
    obtain rfl : type = .primitive token := by
      simpa [scriptCallSlots, ScriptFunction.ReturnsOnStack, taking, ScriptFunction.free,
        DataType.primitive] using htype
    exact DataType.primitive_supported hvoid hother
  returned h := absurd rfl h.1

/-- The code of a call of `void f(t)`, where `t` is passed as `ty`. -/
def callOfTaking (ty : Ty) : List Piece :=
  [.instr (.load 0 ty (.frame .storage 12)),
    .instr (.call (some 1) (.script (.scriptFunction 1)) [⟨.reg 0, ty⟩]),
    .instr (.icmp 2 .ne .i8 (.reg 1) (.const 0)), .check (.reg 2) (.reg 1)]

/-- A frame without variables, with sixteen dwords for what is pushed. -/
def StackFrame.roomy : StackFrame :=
  { StackFrame.bare with
    scriptFunction :=
      { ScriptFunction.free 0 (.primitive .ttVoid) [] 0 with
        scriptData := ⟨0, 16, Nat.zero_le _⟩ } }

/-- Parameters of several sizes: an `int64`, an object and an `int`. -/
def severalSizes : List DataType := [.primitive .ttInt64, .objectOf 2, .primitive .ttInt]

theorem severalSizes_supported : ∀ type ∈ severalSizes, type.Supported := by
  intro type htype
  rw [severalSizes, List.mem_cons, List.mem_cons, List.mem_singleton] at htype
  rcases htype with rfl | rfl | rfl
  · exact DataType.primitive_supported (by decide) (by decide)
  · exact DataType.objectOf_supported 2
  · exact DataType.primitive_supported (by decide) (by decide)

/-- `Foo Bar::f(int64, Foo, int)`, a method that returns an object on the stack. -/
def objectMethod : ScriptFunction :=
  { ScriptFunction.free 1 (.objectOf 2) severalSizes 0 with
    doesReturnOnStack := true
    objectType := some (.bare 1) }

theorem objectMethod_supported (functions : List ScriptFunction) :
    objectMethod.Supported (.ofFunctions functions) where
  slots type htype := by
    have hslots : scriptCallSlots (.ofFunctions functions) objectMethod =
        .objectOf 2 :: .objectOf 1 :: severalSizes := rfl
    rw [hslots, List.mem_cons, List.mem_cons] at htype
    rcases htype with rfl | rfl | htype
    · exact DataType.objectOf_supported 2
    · exact DataType.objectOf_supported 1
    · exact severalSizes_supported type htype
  returned _ := rfl

/-- The two ends of a call of that method agree, with the nine dwords of its slots on the stack. -/
theorem callFrames_agree_and_exact_method : ∃ t t₀ n parameters,
    Runs (emitScriptCall .roomy objectMethod) ⟨9, 0, none, []⟩ n t ∧
    Runs (allocateParameterStorage ⟨StackFrame.roomy.engine, StackFrame.roomy.config, objectMethod⟩)
      ⟨0, 0, none, []⟩ parameters t₀ ∧
    (∃ prologue, t₀.out = [] ++ prologue ∧
      CallFramesAgree .roomy objectMethod ⟨9, 0, none, []⟩ t n parameters prologue) ∧
    ReadsPushedDWords StackFrame.roomy.engine objectMethod parameters := by
  obtain ⟨n, t, hcall⟩ : ∃ n t, Runs (emitScriptCall .roomy objectMethod) ⟨9, 0, none, []⟩ n t :=
    exists_runs (by decide +kernel)
  obtain ⟨parameters, t₀, hframe⟩ : ∃ parameters t₀, Runs (allocateParameterStorage
      ⟨StackFrame.roomy.engine, StackFrame.roomy.config, objectMethod⟩) ⟨0, 0, none, []⟩ parameters
        t₀ := exists_runs (by decide +kernel)
  have hiff := @callFrames_agree_and_exact_iff .roomy objectMethod
    ⟨StackFrame.roomy.engine, StackFrame.roomy.config, objectMethod⟩ _ _ _ _ n parameters
    (objectMethod_supported []) ⟨rfl, rfl⟩ hcall hframe
  obtain ⟨hagree, hexact⟩ := hiff.mpr (by decide)
  exact ⟨t, t₀, n, parameters, hcall, hframe, hagree, hexact⟩

/-- **The dwords are not always exact**: a `bool` is pushed as a dword and received in one
byte. -/
theorem callFrames_not_exact : ¬ ∀ (stack : StackFrame) (callee : ScriptFunction)
    (context : FunctionContext) (s t s₀ t₀ : EmitState) (n : ℕ)
    (parameters : List (ℤ × Parameter)), callee.Supported stack.engine →
    context.engine = stack.engine ∧ context.scriptFunction = callee →
    Runs (emitScriptCall stack callee) s n t →
    Runs (allocateParameterStorage context) s₀ parameters t₀ →
    (∃ prologue, t₀.out = s₀.out ++ prologue ∧
      CallFramesAgree stack callee s t n parameters prologue) ∧
    ReadsPushedDWords stack.engine callee parameters := by
  intro h
  have hexact := (h .bare (.taking .ttBool)
    ⟨StackFrame.bare.engine, StackFrame.bare.config, .taking .ttBool⟩ ⟨1, 0, none, []⟩
    ⟨0, 3, none, callOfTaking .i1⟩ ⟨0, 0, none, []⟩ _ 1 [(0, ⟨0, .i1⟩)]
    (ScriptFunction.taking_supported (by decide) (by decide)) ⟨rfl, rfl⟩ (by rfl) (by rfl)).2
  have hbyte := (hexact 0 (.primitive .ttBool) ⟨0, .i1⟩ rfl rfl 0 (by decide)).1
  exact absurd hbyte (by decide)

end Asllvm
