import Mathlib.Data.List.Range
import Asllvm.EmitRuns
import Asllvm.Translate

/-!
# What an Emission Does to the Builder

Whatever is emitted, three things are true of it, and they are what the results about whole
functions rest on:

* the registers defined are the next unused ones, each defined once (`definedRegisters`);
* a call of a script function is always followed by the check of the state it returns, and no
  other check leaves with `Ok` (`Checked`);
* unless it pushes or pops, the stack pointer is where it was.

`Emits R x` says that every successful run of `x` relates its two states by `R`. It is a class:
its instances follow the structure of an emission, so that the fact about a translator function
is found from its definition. The primitives only extend the code, so they are instances for
every relation that allows for that (`EffectRelation`); the first two points above are such a
relation (`EmitEffect`), and so is the third (`Balanced`). Most of them are instances even for the
relations that only allow for plain code (`CodeRelation`), and calls are for those that allow for
them (`NativeRelation`, `BehaviourRelation`).

## Main results

* `emitScriptCall_emits`, `emitSystemCall_emits` — calls emit in this way too.
* `translateOrdinary_emits`, `translateOpcode_emits` — and so does every instruction.
* `translateOpcode_emits_mute` — which instructions call no behaviour of an object.
-/

open StateExcept

namespace Asllvm

/-- The register an instruction defines. -/
def Instr.dst : Instr → Option ℕ
  | .load r .. | .binop r .. | .icmp r .. | .fcmp r .. | .select r .. | .cast r .. | .gep r .. =>
      some r
  | .call r .. => r
  | .alloca .. | .store .. | .memset .. => none

/-- The register a piece defines; the instructions of a check define none. -/
def Piece.dst : Piece → Option ℕ
  | .instr i => i.dst
  | .check .. => none

/-- The registers some pieces define, in order. -/
def definedRegisters (ps : List Piece) : List ℕ := ps.filterMap Piece.dst

/-- An instruction calls the implementation of a script function. -/
def Instr.isScriptCall : Instr → Bool
  | .call _ (.script _) _ => true
  | _ => false

/-- Pieces in which every script call is followed by the check of the state it returns, and
every other check leaves with an exception. -/
inductive Checked : List Piece → Prop
  | nil : Checked []
  | instr {i : Instr} {ps : List Piece} :
      i.isScriptCall = false → Checked ps → Checked (.instr i :: ps)
  | check {cond : Operand} {state : VmState} {ps : List Piece} :
      state ≠ .Ok → Checked ps → Checked (.check cond state.const.op :: ps)
  | scriptCall {r : ℕ} {target : Operand} {args : List Value} {ps : List Piece} :
      Checked ps → Checked (.instr (.call (some r) (.script target) args) ::
        .instr (.icmp (r + 1) .ne .vmState (.reg r) VmState.Ok.const.op) ::
        .check (.reg (r + 1)) (.reg r) :: ps)

theorem Checked.append {ps qs : List Piece} (h : Checked ps) (h' : Checked qs) :
    Checked (ps ++ qs) := by
  induction h with
  | nil => exact h'
  | instr hi _ ih => exact .instr hi ih
  | check hs _ ih => exact .check hs ih
  | scriptCall _ ih => exact .scriptCall ih

/-- The runtime functions that call a behaviour of an object. -/
def RuntimeFunction.isBehaviour : RuntimeFunction → Bool
  | .callObjectMethod | .free => true
  | _ => false

/-- An instruction calls a behaviour of an object: `addref`, `release`, a destructor or `free`. -/
def Instr.callsBehaviour : Instr → Bool
  | .call _ (.runtime f) _ => f.isBehaviour
  | _ => false

/-- A piece calls a behaviour of an object. -/
def Piece.callsBehaviour : Piece → Bool
  | .instr i => i.callsBehaviour
  | .check .. => false

/-- Pieces that call no behaviour of an object. -/
def Mute (ps : List Piece) : Prop := ∀ piece ∈ ps, piece.callsBehaviour = false

theorem Mute.nil : Mute [] := fun _ h => absurd h List.not_mem_nil

theorem Mute.cons {piece : Piece} {ps : List Piece} (hpiece : piece.callsBehaviour = false)
    (h : Mute ps) : Mute (piece :: ps) := by
  intro piece' hpiece'
  rcases List.mem_cons.mp hpiece' with rfl | hpiece'
  · exact hpiece
  · exact h piece' hpiece'

theorem Mute.append {ps qs : List Piece} (h : Mute ps) (h' : Mute qs) : Mute (ps ++ qs) := by
  intro piece hpiece
  rcases List.mem_append.mp hpiece with hpiece | hpiece
  · exact h piece hpiece
  · exact h' piece hpiece

/-- An instruction belongs to the call of a native function: it announces it, or makes it. -/
def Instr.callsNative : Instr → Bool
  | .call _ (.runtime .prepareSystemCall) _ | .call _ (.system _) _ => true
  | _ => false

/-- A piece belongs to the call of a native function. -/
def Piece.callsNative : Piece → Bool
  | .instr i => i.callsNative
  | .check .. => false

/-- Pieces that call neither a behaviour of an object nor a native function. -/
def Plain (ps : List Piece) : Prop :=
  ∀ piece ∈ ps, piece.callsBehaviour = false ∧ piece.callsNative = false

theorem Plain.nil : Plain [] := fun _ h => absurd h List.not_mem_nil

theorem Plain.cons {piece : Piece} {ps : List Piece}
    (hpiece : piece.callsBehaviour = false ∧ piece.callsNative = false) (h : Plain ps) :
    Plain (piece :: ps) := by
  intro piece' hpiece'
  rcases List.mem_cons.mp hpiece' with rfl | hpiece'
  · exact hpiece
  · exact h piece' hpiece'

theorem Plain.mute {ps : List Piece} (h : Plain ps) : Mute ps := fun piece hpiece =>
  (h piece hpiece).1

/-- The pieces emitted between two states: checked ones, that define the registers between. -/
structure Emitted (s t : EmitState) (ps : List Piece) : Prop where
  out : t.out = s.out ++ ps
  checked : Checked ps
  nextReg : s.nextReg ≤ t.nextReg
  registers : definedRegisters ps = List.range' s.nextReg (t.nextReg - s.nextReg)

theorem Emitted.refl (s : EmitState) : Emitted s s [] :=
  ⟨by simp, .nil, Nat.le_refl _, by simp [definedRegisters]⟩

theorem Emitted.trans {s t u : EmitState} {ps qs : List Piece} (h : Emitted s t ps)
    (h' : Emitted t u qs) : Emitted s u (ps ++ qs) where
  out := by rw [h'.out, h.out, List.append_assoc]
  checked := h.checked.append h'.checked
  nextReg := h.nextReg.trans h'.nextReg
  registers := by
    have hst := h.nextReg
    have htu := h'.nextReg
    have hregs := h'.registers
    have hsplit : u.nextReg - s.nextReg = (t.nextReg - s.nextReg) + (u.nextReg - t.nextReg) := by
      omega
    have hmid : s.nextReg + (t.nextReg - s.nextReg) = t.nextReg := by omega
    rw [definedRegisters, List.filterMap_append, ← definedRegisters, ← definedRegisters,
      h.registers, hregs, hsplit, ← List.range'_append_1, hmid]

/-- **The effect of a successful emission**: it appends pieces as above. The return pointer is
only moved by `RET`, which does so itself. -/
structure EmitEffect (s t : EmitState) : Prop where
  retPointer : t.retPointer = s.retPointer
  pieces : ∃ ps, Emitted s t ps

/-- Pieces as above are appended; the return pointer may have moved. -/
def Appends (s t : EmitState) : Prop := ∃ ps, Emitted s t ps

/-- Pieces that call no behaviour are appended. -/
def AppendsMute (s t : EmitState) : Prop := ∃ ps, t.out = s.out ++ ps ∧ Mute ps

/-- The stack pointer is where it was. -/
def Balanced (s t : EmitState) : Prop := t.stackPointer = s.stackPointer

/-- A preorder on emission states that allows for defining registers and appending plain pieces. -/
class CodeRelation (R : EmitState → EmitState → Prop) : Prop where
  refl : ∀ s, R s s
  trans : ∀ {s t u}, R s t → R t u → R s u
  extend : ∀ {s : EmitState} {n : ℕ} {ps : List Piece}, Checked ps → Plain ps →
    definedRegisters ps = List.range' s.nextReg n → R s (s.extend n ps)

/-- The pieces of the call of a native function: it is announced, and then made. -/
def nativeCall (callee : Value) (dst : Option ℕ) (args : List Value) : List Piece := [
  .instr (.call none (.runtime .prepareSystemCall) [callee]),
  .instr (.call dst (.system callee.op) args)]

theorem nativeCall_checked (callee : Value) (dst : Option ℕ) (args : List Value) :
    Checked (nativeCall callee dst args) := .instr rfl (.instr rfl .nil)

/-- A relation on emission states that allows for calling a native function that fulfils `P`. -/
class NativeRelation (P : Value → Prop) (R : EmitState → EmitState → Prop) : Prop where
  native : ∀ {s : EmitState} {n : ℕ} {callee : Value} {dst : Option ℕ} {args : List Value},
    P callee → dst.toList = List.range' s.nextReg n →
    R s (s.extend n (nativeCall callee dst args))

/-- A relation on emission states that allows for calling a behaviour. -/
class BehaviourRelation (R : EmitState → EmitState → Prop) : Prop where
  behaviour : ∀ {f : RuntimeFunction}, f.isBehaviour = true → ∀ (s : EmitState) (args : List Value),
    R s (s.extend 0 [.instr (.call none (.runtime f) args)])

/-- A relation on emission states that allows for moving the stack pointer. -/
class MovesRelation (R : EmitState → EmitState → Prop) : Prop where
  move : ∀ (s : EmitState) (d : ℤ), R s (s.move d)

/-- A preorder on emission states that allows for defining registers and appending pieces. -/
class EffectRelation (R : EmitState → EmitState → Prop) : Prop where
  refl : ∀ s, R s s
  trans : ∀ {s t u}, R s t → R t u → R s u
  extend : ∀ {s : EmitState} {n : ℕ} {ps : List Piece}, Checked ps →
    definedRegisters ps = List.range' s.nextReg n → R s (s.extend n ps)

instance {R : EmitState → EmitState → Prop} [h : EffectRelation R] : CodeRelation R where
  refl := h.refl
  trans := h.trans
  extend hchecked _ hregs := h.extend hchecked hregs

instance {R : EmitState → EmitState → Prop} [h : EffectRelation R] (P : Value → Prop) :
    NativeRelation P R where
  native {s n callee dst args} _ hregs := by
    refine h.extend (nativeCall_checked callee dst args) ?_
    rw [← hregs]
    cases dst <;> rfl

instance {R : EmitState → EmitState → Prop} [h : EffectRelation R] : BehaviourRelation R where
  behaviour _ _ _ := h.extend (.instr rfl .nil) rfl

instance : EffectRelation EmitEffect where
  refl s := ⟨rfl, [], .refl s⟩
  trans h h' := by
    obtain ⟨ps, hps⟩ := h.pieces
    obtain ⟨qs, hqs⟩ := h'.pieces
    exact ⟨h'.retPointer.trans h.retPointer, ps ++ qs, hps.trans hqs⟩
  extend hchecked hregs := ⟨rfl, _, rfl, hchecked, Nat.le_add_right _ _, by
    rw [hregs, EmitState.extend_nextReg, Nat.add_sub_cancel_left]⟩

instance : MovesRelation EmitEffect where
  move _ _ := ⟨rfl, [], by simp, .nil, Nat.le_refl _, by simp [definedRegisters]⟩

instance : EffectRelation Appends where
  refl s := ⟨[], .refl s⟩
  trans h h' := by
    obtain ⟨ps, hps⟩ := h
    obtain ⟨qs, hqs⟩ := h'
    exact ⟨ps ++ qs, hps.trans hqs⟩
  extend hchecked hregs := ⟨_, rfl, hchecked, Nat.le_add_right _ _, by
    rw [hregs, EmitState.extend_nextReg, Nat.add_sub_cancel_left]⟩

instance : CodeRelation AppendsMute where
  refl s := ⟨[], by simp, .nil⟩
  trans h h' := by
    obtain ⟨ps, hps, hmute⟩ := h
    obtain ⟨qs, hqs, hmute'⟩ := h'
    exact ⟨ps ++ qs, by rw [hqs, hps, List.append_assoc], hmute.append hmute'⟩
  extend _ hplain _ := ⟨_, rfl, hplain.mute⟩

instance (P : Value → Prop) : NativeRelation P AppendsMute where
  native _ _ := ⟨_, rfl, .cons rfl (.cons rfl .nil)⟩

instance : MovesRelation AppendsMute where
  move _ _ := ⟨[], by simp, .nil⟩

instance : EffectRelation Balanced where
  refl _ := rfl
  trans h h' := h'.trans h
  extend _ _ := rfl

/-- Every successful run of `x` relates its two states by `R`. -/
class Emits (R : EmitState → EmitState → Prop) {α : Type} (x : EmitM α) : Prop where
  effect : ∀ {s a t}, Runs x s a t → R s t

/-- The stack pointer after an emission that neither pushes nor pops. -/
theorem stackPointer_of_runs {α : Type} {x : EmitM α} {s t : EmitState} {a : α}
    [h : Emits Balanced x] (hx : Runs x s a t) : t.stackPointer = s.stackPointer :=
  h.effect hx

/-- What an emission has appended. -/
theorem emitted_of_runs {α : Type} {x : EmitM α} {s t : EmitState} {a : α}
    [h : Emits EmitEffect x] (hx : Runs x s a t) : ∃ ps, Emitted s t ps :=
  (h.effect hx).pieces

/-! ### Closure under the monad -/

section Closure

variable {R : EmitState → EmitState → Prop} [hR : CodeRelation R] {α β : Type}

instance Emits.pure (a : α) : Emits R (pure a) where
  effect h := by
    obtain ⟨-, rfl⟩ := runs_pure.mp h
    exact hR.refl _

instance Emits.bind {x : EmitM α} {f : α → EmitM β} [hx : Emits R x] [hf : ∀ a, Emits R (f a)] :
    Emits R (x >>= f) where
  effect h := by
    obtain ⟨a, t, hx', hf'⟩ := runs_bind.mp h
    exact hR.trans (hx.effect hx') ((hf a).effect hf')

instance Emits.map {x : EmitM α} {f : α → β} [hx : Emits R x] : Emits R (f <$> x) where
  effect h := by
    obtain ⟨a, hx', -⟩ := runs_map.mp h
    exact hx.effect hx'

instance Emits.throw (e : EmitError) : Emits R (throw e : EmitM α) where
  effect h := absurd h runs_throw

instance Emits.lift (x : Except EmitError α) : Emits R (liftM x : EmitM α) where
  effect h := by
    obtain ⟨-, rfl⟩ := runs_lift.mp h
    exact hR.refl _

instance Emits.ite {c : Prop} [Decidable c] {x y : EmitM α} [hx : Emits R x] [hy : Emits R y] :
    Emits R (if c then x else y) := by
  split
  · exact hx
  · exact hy

/-- A fold emits in this way when its body does. -/
instance Emits.foldlM {f : β → α → EmitM β} [hf : ∀ b a, Emits R (f b a)] (xs : List α) (b : β) :
    Emits R (xs.foldlM f b) where
  effect {s a t} h := by
    induction xs generalizing b s with
    | nil =>
        obtain ⟨-, rfl⟩ := runs_foldlM_nil.mp h
        exact hR.refl _
    | cons x xs ih =>
        obtain ⟨c, u, hx, hxs⟩ := runs_foldlM_cons.mp h
        exact hR.trans ((hf b x).effect hx) (ih c hxs)

/-! ### The primitives -/

instance (config : JitConfig) (c : Bool) : Emits R (asllvmAssert config c) where
  effect h := by
    obtain ⟨-, rfl⟩ := runs_asllvmAssert.mp h
    exact hR.refl _

instance (config : JitConfig) : Emits R (unimpl config) :=
  inferInstanceAs (Emits R (asllvmAssert config false))

instance (o : Option α) : Emits R (atOrThrow o) where
  effect h := by
    obtain ⟨-, rfl⟩ := runs_atOrThrow.mp h
    exact hR.refl _

instance (o : Option α) : Emits R (elementAt o) where
  effect h := by
    obtain ⟨-, rfl⟩ := runs_elementAt.mp h
    exact hR.refl _

instance (o : Option α) : Emits R (dereference o) where
  effect h := by
    obtain ⟨-, rfl⟩ := runs_dereference.mp h
    exact hR.refl _

instance : Emits R StackFrame.currentStackPointer where
  effect h := by
    obtain ⟨-, rfl⟩ := StackFrame.runs_currentStackPointer.mp h
    exact hR.refl _

instance (ty : Ty) (ptr : Value) : Emits R (createLoad ty ptr) where
  effect h := by
    obtain ⟨-, rfl⟩ := runs_createLoad.mp h
    exact hR.extend (.instr rfl .nil) (.cons ⟨rfl, rfl⟩ .nil) rfl

instance (value ptr : Value) : Emits R (createStore value ptr) where
  effect h := by
    rw [runs_createStore.mp h]
    exact hR.extend (.instr rfl .nil) (.cons ⟨rfl, rfl⟩ .nil) rfl

instance (op : BinOp) (lhs rhs : Value) : Emits R (createBinOp op lhs rhs) where
  effect h := by
    obtain ⟨-, rfl⟩ := runs_createBinOp.mp h
    exact hR.extend (.instr rfl .nil) (.cons ⟨rfl, rfl⟩ .nil) rfl

instance (pred : Pred) (lhs rhs : Value) : Emits R (createICmp pred lhs rhs) where
  effect h := by
    obtain ⟨-, rfl⟩ := runs_createICmp.mp h
    exact hR.extend (.instr rfl .nil) (.cons ⟨rfl, rfl⟩ .nil) rfl

instance (pred : FPred) (lhs rhs : Value) : Emits R (createFCmp pred lhs rhs) where
  effect h := by
    obtain ⟨-, rfl⟩ := runs_createFCmp.mp h
    exact hR.extend (.instr rfl .nil) (.cons ⟨rfl, rfl⟩ .nil) rfl

instance (cond ifTrue ifFalse : Value) : Emits R (createSelect cond ifTrue ifFalse) where
  effect h := by
    obtain ⟨-, rfl⟩ := runs_createSelect.mp h
    exact hR.extend (.instr rfl .nil) (.cons ⟨rfl, rfl⟩ .nil) rfl

instance (op : CastOp) (value : Value) (ty : Ty) : Emits R (createCast op value ty) where
  effect h := by
    obtain ⟨-, rfl⟩ := runs_createCast.mp h
    exact hR.extend (.instr rfl .nil) (.cons ⟨rfl, rfl⟩ .nil) rfl

instance (base index : Value) (scale : ℕ) (ty : Ty) :
    Emits R (createInBoundsGEP base index scale ty) where
  effect h := by
    obtain ⟨-, rfl⟩ := runs_createInBoundsGEP.mp h
    exact hR.extend (.instr rfl .nil) (.cons ⟨rfl, rfl⟩ .nil) rfl

/-- A call of a function of the runtime that is no behaviour and announces no call. -/
theorem createCall_runtime_emits {f : RuntimeFunction} (hf : f.isBehaviour = false)
    (hne : f ≠ .prepareSystemCall) (ty : Ty) (args : List Value) :
    Emits R (createCall ty (.runtime f) args) where
  effect {s a t} h := by
    have hplain : ∀ r, (Instr.call r (.runtime f) args).callsNative = false := by
      intro r
      cases f <;> first | rfl | exact absurd rfl hne
    by_cases hty : ty = .void
    · subst hty
      obtain ⟨-, rfl⟩ := runs_createCall_void.mp h
      exact hR.extend (.instr rfl .nil) (.cons ⟨hf, hplain _⟩ .nil) rfl
    · obtain ⟨-, rfl⟩ := (runs_createCall hty).mp h
      exact hR.extend (.instr rfl .nil) (.cons ⟨hf, hplain _⟩ .nil) rfl

instance (ty : Ty) (args : List Value) : Emits R (createCall ty (.runtime .alloc) args) :=
  createCall_runtime_emits rfl (by decide) ty args

instance (ty : Ty) (args : List Value) :
    Emits R (createCall ty (.runtime .newScriptObject) args) :=
  createCall_runtime_emits rfl (by decide) ty args

instance (ty : Ty) (args : List Value) :
    Emits R (createCall ty (.runtime .scriptVtableLookup) args) :=
  createCall_runtime_emits rfl (by decide) ty args

instance (ty : Ty) (args : List Value) :
    Emits R (createCall ty (.runtime .systemVtableLookup) args) :=
  createCall_runtime_emits rfl (by decide) ty args

/-- A call of a script function is emitted together with the check of its state. -/
instance (target : Operand) (args : List Value) (f : Value → EmitM α)
    [hf : ∀ v, Emits R (f v)] : Emits R (do
      let vmState ← createCall .vmState (.script target) args
      emitCheckVmState vmState
      f vmState) where
  effect h := by
    simp only [runs_bind, runs_createCall_i8, runs_emitCheckVmState] at h
    obtain ⟨_, _, ⟨rfl, rfl⟩, _, _, rfl, h⟩ := h
    rw [EmitState.extend_extend] at h
    exact hR.trans (hR.extend (.scriptCall .nil) (.cons ⟨rfl, rfl⟩ (.cons ⟨rfl, rfl⟩ (.cons ⟨rfl, rfl⟩ .nil))) rfl)
      ((hf _).effect h)

instance (pointer : Value) : Emits R (emitCheckNullPointer pointer) where
  effect h := by
    rw [runs_emitCheckNullPointer.mp h]
    exact hR.extend (.instr rfl (.check (by decide) .nil)) (.cons ⟨rfl, rfl⟩ (.cons ⟨rfl, rfl⟩ .nil)) rfl

instance : Emits R emitCheckContextState where
  effect h := by
    rw [runs_emitCheckContextState.mp h]
    exact hR.extend (.instr rfl (.instr rfl (.check (by decide) .nil)))
      (.cons ⟨rfl, rfl⟩ (.cons ⟨rfl, rfl⟩ (.cons ⟨rfl, rfl⟩ .nil))) rfl

instance (value : Value) : Emits R (storeValueRegisterValue value) :=
  inferInstanceAs (Emits R (createStore _ _))

instance (ty : Ty) : Emits R (loadValueRegisterValue ty) :=
  inferInstanceAs (Emits R (createLoad _ _))

instance (address : BitVec 64) (ty : Ty) : Emits R (loadGlobal address ty) :=
  inferInstanceAs (Emits R (createLoad _ _))

variable (stack : StackFrame) (offset : ℤ) (ty : Ty) (value : Value)

instance : Emits R (stack.pointerToAs offset ty) where
  effect h := by
    obtain ⟨-, -, rfl⟩ := (StackFrame.runs_pointerToAs stack).mp h
    exact hR.refl _

instance : Emits R (stack.load offset ty) :=
  inferInstanceAs (Emits R (stack.pointerToAs offset ty >>= fun p => createLoad ty p))

instance : Emits R (stack.store offset value) :=
  inferInstanceAs (Emits R (stack.pointerToAs offset value.ty >>= fun p => createStore value p))

instance : Emits R (stack.top ty) :=
  inferInstanceAs (Emits R (do stack.load (← StackFrame.currentStackPointer) ty))

end Closure

/-! ### Pushes and pops -/

section Stack

variable {R : EmitState → EmitState → Prop} [hR : CodeRelation R] [hM : MovesRelation R]
variable (stack : StackFrame) (ty : Ty) (value : Value) (n : ℕ)

omit hR in
instance (d : ℤ) : Emits R (StackFrame.moveStackPointer d) where
  effect h := by
    rw [StackFrame.runs_moveStackPointer.mp h]
    exact hM.move _ d

instance : Emits R (StackFrame.popDWords n) :=
  inferInstanceAs (Emits R (StackFrame.moveStackPointer _))

instance : Emits R (stack.push value n) :=
  inferInstanceAs (Emits R (do
    StackFrame.moveStackPointer n
    stack.store (← StackFrame.currentStackPointer) value))

instance : Emits R (stack.pop n ty) :=
  inferInstanceAs (Emits R (do
    let value ← stack.load (← StackFrame.currentStackPointer) ty
    StackFrame.popDWords n
    pure value))

omit hR in
instance : Emits R stack.uglyHackStackPointerWithinBounds where
  effect {s a t} h := by
    have hmove := hM.move s (max s.stackPointer stack.variableSpace - s.stackPointer)
    have hsum : s.stackPointer + (max s.stackPointer stack.variableSpace - s.stackPointer) =
        max s.stackPointer stack.variableSpace := by omega
    rw [EmitState.move, hsum] at hmove
    rw [(StackFrame.runs_uglyHack stack).mp h]
    exact hmove

end Stack

/-! ### Calls -/

section Calls

variable {R : EmitState → EmitState → Prop} [hR : CodeRelation R]
variable (stack : StackFrame) (entry : Option VmEntryCallContext) (callee : ScriptFunction)

instance (config : JitConfig) (id vfTableIdx : ℤ) :
    Emits R (getScriptFunction config id vfTableIdx) :=
  inferInstanceAs (Emits R (asllvmAssert _ _ >>= fun _ => pure _))

instance (config : JitConfig) (object : Value) :
    Emits R (resolveVirtualScriptFunction config object callee) := by
  unfold resolveVirtualScriptFunction
  infer_instance

instance : Emits R (resolveCallee stack callee) := by
  unfold resolveCallee
  infer_instance

instance [MovesRelation R] (type : DataType) (n : ℕ) : Emits R (popArgument stack entry type n) := by
  unfold popArgument
  cases entry <;> infer_instance

instance [MovesRelation R] (calleeType : List Ty) :
    Emits R (returnArguments stack entry callee calleeType) := by
  unfold returnArguments
  infer_instance

instance [MovesRelation R] (n : ℕ) : Emits R (objectArguments stack entry callee n) := by
  unfold objectArguments
  cases callee.objectType <;> infer_instance

instance [MovesRelation R] (types : List DataType) (n : ℕ) :
    Emits R (parameterArguments stack entry types n) := by
  induction types generalizing n with
  | nil => exact inferInstanceAs (Emits R (pure _))
  | cons type types ih =>
      unfold parameterArguments
      infer_instance

set_option synthInstance.maxSize 256 in
/-- A script call emits checked pieces. -/
instance emitScriptCall_emits [MovesRelation R] : Emits R (emitScriptCall stack callee entry) := by
  unfold emitScriptCall
  infer_instance

variable (function : ScriptFunction) (paramTypes : List Ty) (st : SystemCallArguments)

instance [MovesRelation R] : Emits R (popParam stack function paramTypes st) := by
  unfold popParam
  infer_instance

instance [MovesRelation R] (index : ℕ) : Emits R (popObject stack paramTypes index st) := by
  unfold popObject
  infer_instance

instance [MovesRelation R] : Emits R (popSretPointer stack paramTypes st) := by
  unfold popSretPointer
  infer_instance

instance [MovesRelation R] (i : ℕ) : Emits R (systemCallArgument stack function paramTypes st i) := by
  unfold systemCallArgument
  dsimp only
  split <;> infer_instance

instance (object : Option Value) : Emits R (systemCallee stack function object) := by
  unfold systemCallee
  dsimp only
  split <;> infer_instance

instance (returnPointer : Option Value) (result : Value) :
    Emits R (storeSystemResult function returnPointer result) := by
  unfold storeSystemResult
  cases returnPointer <;> infer_instance

/-- The arguments of a native function are there already. -/
theorem mapM_dereference_state {args : List (Option Value)} {s t : EmitState} {vs : List Value}
    (h : Runs (args.mapM dereference) s vs t) : t = s := by
  induction args generalizing s t vs with
  | nil =>
      rw [List.mapM_nil] at h
      exact (runs_pure.mp h).2
  | cons arg args ih =>
      rw [List.mapM_cons, runs_bind] at h
      obtain ⟨v, u, hv, h⟩ := h
      obtain ⟨vs, w, hvs, h⟩ := runs_bind.mp h
      obtain ⟨-, rfl⟩ := runs_pure.mp h
      obtain ⟨-, rfl⟩ := runs_dereference.mp hv
      exact ih hvs

instance [MovesRelation R] (returnType : Ty) : Emits R (popReturnPointer stack function returnType) := by
  unfold popReturnPointer
  infer_instance

instance [MovesRelation R] : Emits R (systemCallArguments stack function paramTypes) :=
  Emits.foldlM _ _

instance (object : Option Value) : Emits R (checkObject object) := by
  cases object
  · exact inferInstanceAs (Emits R (pure ()))
  · exact inferInstanceAs (Emits R (emitCheckNullPointer _))

/-- The value that `emit_system_call` calls is the native function of that id, or was looked up in
the virtual table of the object. -/
structure IsCallee (function : ScriptFunction) (callee : Value) : Prop where
  ty : callee.ty = .pvoid
  op : function.sysFuncIntf.callConv = .ICC_VIRTUAL_THISCALL ∨
    callee.op = .systemFunction function.id

theorem runs_systemCallee_isCallee {stack : StackFrame} {function : ScriptFunction}
    {object : Option Value} {s t : EmitState} {callee : Value}
    (h : Runs (systemCallee stack function object) s callee t) : IsCallee function callee := by
  rw [systemCallee] at h
  split at h
  · next hvirtual =>
      obtain ⟨_, _, -, h⟩ := runs_bind.mp h
      obtain ⟨object, _, -, h⟩ := runs_bind.mp h
      obtain ⟨rfl, -⟩ := (runs_createCall (by simp)).mp h
      exact ⟨rfl, .inl hvirtual⟩
  · obtain ⟨rfl, -⟩ := runs_pure.mp h
    exact ⟨rfl, .inr rfl⟩

/-- **A native function is announced and then called.** -/
theorem callSystemFunction_emits {P : Value → Prop} [hN : NativeRelation P R] {callee : Value}
    (hcallee : P callee) (returnType : Ty) (args : List (Option Value)) :
    Emits R (callSystemFunction callee returnType args) where
  effect {s a t} h := by
    rw [callSystemFunction] at h
    obtain ⟨_, s₁, hprepare, h⟩ := runs_bind.mp h
    obtain ⟨-, rfl⟩ := runs_createCall_void.mp hprepare
    obtain ⟨values, s₂, hvalues, h⟩ := runs_bind.mp h
    obtain rfl := mapM_dereference_state hvalues
    obtain ⟨result, s₃, hcall, h⟩ := runs_bind.mp h
    obtain ⟨_, s₄, hcheck, h⟩ := runs_bind.mp h
    obtain ⟨-, rfl⟩ := runs_pure.mp h
    refine hR.trans ?_ (Emits.effect hcheck)
    by_cases hvoid : returnType = .void
    · subst hvoid
      obtain ⟨-, rfl⟩ := runs_createCall_void.mp hcall
      rw [EmitState.extend_extend]
      exact hN.native hcallee rfl
    · obtain ⟨-, rfl⟩ := (runs_createCall hvoid).mp hcall
      rw [EmitState.extend_extend]
      exact hN.native hcallee rfl

omit hR in
instance [EffectRelation R] (callee : Value) (returnType : Ty) (args : List (Option Value)) :
    Emits R (callSystemFunction callee returnType args) :=
  callSystemFunction_emits (P := fun _ => True) trivial returnType args

variable [NativeRelation (IsCallee function) R]

instance [MovesRelation R] (returnType : Ty) (returnPointer : Option Value) :
    Emits R (finishSystemCall stack function returnType returnPointer st) where
  effect h := by
    rw [finishSystemCall] at h
    obtain ⟨_, s₁, hobject, h⟩ := runs_bind.mp h
    obtain ⟨callee, s₂, hcallee, h⟩ := runs_bind.mp h
    obtain ⟨result, s₃, hresult, h⟩ := runs_bind.mp h
    obtain ⟨_, s₄, hstore, h⟩ := runs_bind.mp h
    have hcalls := callSystemFunction_emits (R := R) (runs_systemCallee_isCallee hcallee) returnType st.args
    exact hR.trans (Emits.effect hobject) (hR.trans (Emits.effect hcallee)
      (hR.trans (hcalls.effect hresult) (hR.trans (Emits.effect hstore) (Emits.effect h))))

/-- A system call emits checked pieces. -/
instance emitSystemCall_emits [MovesRelation R] : Emits R (emitSystemCall stack function) := by
  unfold emitSystemCall
  infer_instance

end Calls

/-! ### Instructions -/

section Instructions

variable {R : EmitState → EmitState → Prop} [hR : CodeRelation R]
variable (stack : StackFrame) (ins : BytecodeInstruction) (op : BinOp) (type : Ty)

instance (lhs rhs : Value) : Emits R (emitBinopOf stack ins op lhs rhs) := by
  unfold emitBinopOf
  infer_instance

instance (rhs : Value) : Emits R (emitBinopWith stack ins op rhs) := by
  unfold emitBinopWith
  infer_instance

instance : Emits R (emitBinop stack ins op type) := by
  unfold emitBinop
  infer_instance

instance (cast : CastOp) (src dst : Ty) : Emits R (emitCast stack ins cast src dst) := by
  unfold emitCast
  infer_instance

instance : Emits R (emitNeg stack ins type) := by
  unfold emitNeg
  infer_instance

instance : Emits R (emitBitNot stack ins type) := by
  unfold emitBitNot
  infer_instance

instance (pred : Pred) : Emits R (emitCondition pred) := by
  unfold emitCondition
  infer_instance

instance (negative : Bool) : Emits R (emitIncrement type negative) := by
  unfold emitIncrement
  infer_instance

instance (lhs rhs : Value) (isSigned : Bool) : Emits R (createOrder lhs rhs isSigned) := by
  unfold createOrder
  infer_instance

instance (config : JitConfig) (lhs rhs : Value) (isSigned : Bool) :
    Emits R (emitCompare config lhs rhs isSigned) := by
  unfold emitCompare
  infer_instance

instance (isSigned : Bool) : Emits R (compareVariables stack ins type isSigned) := by
  unfold compareVariables
  infer_instance

instance : Emits R (copyVariable stack ins type) := by
  unfold copyVariable
  infer_instance

instance : Emits R (incrementVariable stack ins op) := by
  unfold incrementVariable
  infer_instance

instance : Emits R (writeThroughRegister stack ins type) := by
  unfold writeThroughRegister
  infer_instance

instance : Emits R (readNarrowThroughRegister stack ins type) := by
  unfold readNarrowThroughRegister
  infer_instance

instance : Emits R (readThroughRegister stack ins type) := by
  unfold readThroughRegister
  infer_instance

instance (index : Value) : Emits R (variableAddress stack index type) := by
  unfold variableAddress
  infer_instance

instance : Emits R (translateGetObj stack ins) := by
  unfold translateGetObj
  infer_instance

instance : Emits R (translateGetObjRef stack ins) := by
  unfold translateGetObjRef
  infer_instance

instance : Emits R (translateGetRef stack ins) := by
  unfold translateGetRef
  infer_instance

set_option synthInstance.maxSize 256 in
instance [MovesRelation R] (constructorId : ℤ) : Emits R (allocScriptObject stack ins constructorId) := by
  unfold allocScriptObject
  infer_instance

/-- The instructions that call behaviours of objects. -/
def Opcode.callsBehaviour : Opcode → Bool
  | .FREE | .REFCPY | .RefCpyV => true
  | _ => false

/-- The instructions that call native functions. -/
def Opcode.callsNative : Opcode → Bool
  | .CALLSYS | .Thiscall1 | .ALLOC => true
  | _ => false

theorem Opcode.callsBehaviour_iff {bc : Opcode} :
    bc.callsBehaviour = true ↔ bc = .FREE ∨ bc = .REFCPY ∨ bc = .RefCpyV := by
  cases bc <;> simp [callsBehaviour]

theorem Opcode.callsNative_iff {bc : Opcode} :
    bc.callsNative = true ↔ bc = .CALLSYS ∨ bc = .Thiscall1 ∨ bc = .ALLOC := by
  cases bc <;> simp [callsNative]

/-- **Every other instruction emits plain pieces.** -/
theorem translateOrdinary_emits_of_plain [MovesRelation R] (hmute : ins.bc.callsBehaviour = false)
    (hnative : ins.bc.callsNative = false) : Emits R (translateOrdinary stack ins) := by
  unfold translateOrdinary
  cases hbc : ins.bc <;> rw [hbc] at hmute hnative <;> first
    | exact absurd hmute (by decide)
    | exact absurd hnative (by decide)
    | dsimp only
      infer_instance

end Instructions

/-! ### Calls of native functions -/

section Native

variable {R : EmitState → EmitState → Prop} [hR : CodeRelation R] [MovesRelation R]
variable (stack : StackFrame) (ins : BytecodeInstruction)

/-- The native function an instruction calls: by its id, or as the constructor of a type the host
has registered. -/
def BytecodeInstruction.systemFunction (ins : BytecodeInstruction) (engine : Engine) :
    Option ScriptFunction :=
  match ins.bc with
  | .CALLSYS | .Thiscall1 => engine.getFunctionById ins.argInt
  | .ALLOC =>
      if (engine.objectTypeAt ins.argPWord).isScriptObject || ins.argInt asPtrSize == 0 then none
      else engine.getFunctionById (ins.argInt asPtrSize)
  | _ => none

theorem emitSystemCall_emits_of_some {o : Option ScriptFunction}
    (hnative : ∀ function, o = some function → NativeRelation (IsCallee function) R) :
    Emits R (dereference o >>= emitSystemCall stack) where
  effect h := by
    obtain ⟨function, t, hfunction, hcall⟩ := runs_bind.mp h
    obtain ⟨hsome, rfl⟩ := runs_dereference.mp hfunction
    have := hnative function hsome
    exact Emits.effect hcall

theorem allocNativeObject_emits (objectType : ObjectType) (constructorId : ℤ)
    (hnative : constructorId ≠ 0 → ∀ function,
      stack.engine.getFunctionById constructorId = some function →
        NativeRelation (IsCallee function) R) :
    Emits R (allocNativeObject stack objectType constructorId) where
  effect h := by
    rw [allocNativeObject] at h
    obtain ⟨object, s₁, hobject, h⟩ := runs_bind.mp h
    refine hR.trans (Emits.effect hobject) ?_
    by_cases hid : constructorId ≠ 0
    · rw [if_pos hid] at h
      obtain ⟨_, s₂, hpush, hrest⟩ := runs_bind.mp h
      obtain ⟨function, s₃, hfunction, hfinish⟩ := runs_bind.mp hrest
      obtain ⟨hsome, rfl⟩ := runs_dereference.mp hfunction
      obtain ⟨_, s₄, hcall, hstore⟩ := runs_bind.mp hfinish
      have := hnative hid function hsome
      exact hR.trans (Emits.effect hpush) (hR.trans (Emits.effect hcall) (Emits.effect hstore))
    · rw [if_neg hid] at h
      exact Emits.effect h

/-- **An instruction that calls native functions** calls its own. -/
theorem translateOrdinary_emits_of_native (h : ins.bc.callsNative = true)
    (hnative : ∀ function, ins.systemFunction stack.engine = some function →
      NativeRelation (IsCallee function) R) : Emits R (translateOrdinary stack ins) := by
  rw [BytecodeInstruction.systemFunction] at hnative
  rw [translateOrdinary]
  rcases Opcode.callsNative_iff.mp h with hbc | hbc | hbc
  · rw [hbc] at hnative ⊢
    have := emitSystemCall_emits_of_some stack hnative
    infer_instance
  · rw [hbc] at hnative ⊢
    have := emitSystemCall_emits_of_some stack hnative
    infer_instance
  · rw [hbc] at hnative ⊢
    dsimp only at hnative ⊢
    rw [translateAlloc]
    by_cases hscript : (stack.engine.objectTypeAt ins.argPWord).isScriptObject = true
    · rw [if_pos hscript]
      infer_instance
    · rw [if_neg hscript]
      refine allocNativeObject_emits stack _ _ fun hid function hfunction => hnative function ?_
      rw [if_neg (by simp [hscript, hid])]
      exact hfunction

end Native

/-! ### Behaviours of objects -/

section Behaviours

variable {R : EmitState → EmitState → Prop} [hR : CodeRelation R] [hM : MovesRelation R]
  [hB : BehaviourRelation R]
variable (stack : StackFrame) (ins : BytecodeInstruction)

omit hR hM in

theorem createCall_behaviour_emits {f : RuntimeFunction} (hf : f.isBehaviour = true)
    (args : List Value) : Emits R (createCall .void (.runtime f) args) where
  effect h := by
    obtain ⟨-, rfl⟩ := runs_createCall_void.mp h
    exact hB.behaviour hf _ args

omit hR hM in
instance (args : List Value) : Emits R (createCall .void (.runtime .free) args) :=
  createCall_behaviour_emits rfl args

omit hR hM in
instance (args : List Value) : Emits R (createCall .void (.runtime .callObjectMethod) args) :=
  createCall_behaviour_emits rfl args

omit hM in
instance (functionId : ℤ) (object : Value) : Emits R (emitObjectMethodCall functionId object) :=
  inferInstanceAs (Emits R (createCall _ _ _ >>= fun _ => pure _))

omit hM in
instance : Emits R (translateFree stack ins) := by
  unfold translateFree
  infer_instance

omit hM in
instance (objectType : ObjectType) (object : Value) : Emits R (emitAddRef objectType object) :=
  inferInstanceAs (Emits R (createCall _ _ _ >>= fun _ => pure _))

omit hM in
instance : Emits R (translateRefCpyV stack ins) := by
  unfold translateRefCpyV
  infer_instance

instance : Emits R (translateRefCpy stack ins) := by
  unfold translateRefCpy
  infer_instance

/-- **The instructions that call behaviours** of objects. -/
theorem translateOrdinary_emits_of_behaviour (h : ins.bc.callsBehaviour = true) :
    Emits R (translateOrdinary stack ins) := by
  rw [translateOrdinary]
  rcases Opcode.callsBehaviour_iff.mp h with hbc | hbc | hbc <;> rw [hbc] <;> infer_instance

end Behaviours

section Ordinary

variable {R : EmitState → EmitState → Prop} [hR : CodeRelation R] [MovesRelation R]
variable (stack : StackFrame) (ins : BytecodeInstruction)

/-- **Every instruction but those that call behaviours** of objects. -/
theorem translateOrdinary_emits_of_mute (h : ins.bc.callsBehaviour = false)
    (hnative : ∀ function, ins.systemFunction stack.engine = some function →
      NativeRelation (IsCallee function) R) : Emits R (translateOrdinary stack ins) := by
  cases hcalls : ins.bc.callsNative with
  | true => exact translateOrdinary_emits_of_native stack ins hcalls hnative
  | false => exact translateOrdinary_emits_of_plain stack ins h hcalls

/-- **Every instruction**, for a relation that allows for its calls. -/
theorem translateOrdinary_emits_of_calls [BehaviourRelation R]
    (hnative : ∀ function, ins.systemFunction stack.engine = some function →
      NativeRelation (IsCallee function) R) : Emits R (translateOrdinary stack ins) := by
  cases h : ins.bc.callsBehaviour with
  | true => exact translateOrdinary_emits_of_behaviour stack ins h
  | false => exact translateOrdinary_emits_of_mute stack ins h hnative

/-- **Every instruction emits checked pieces.** -/
theorem translateOrdinary_emits : Emits EmitEffect (translateOrdinary stack ins) :=
  translateOrdinary_emits_of_calls stack ins fun _ _ => inferInstance

end Ordinary

/-! ### The ends of blocks -/

section Terminators

variable {R : EmitState → EmitState → Prop} [hR : CodeRelation R]
variable (stack : StackFrame) (jumps : JumpTables) (ins : BytecodeInstruction)

/-- Moving the return pointer. -/
abbrev setRetPointer (offset : ℕ) : EmitM Unit :=
  modify fun s => { s with retPointer := some offset }

instance (offset : ℕ) : Emits Balanced (setRetPointer offset) where
  effect h := by
    rw [runs_modify.mp h]
    rfl

instance (offset : ℕ) : Emits AppendsMute (setRetPointer offset) where
  effect h := by
    rw [runs_modify.mp h]
    exact ⟨[], by simp, .nil⟩

instance (offset : ℕ) : Emits Appends (setRetPointer offset) where
  effect h := by
    rw [runs_modify.mp h]
    exact ⟨[], by simp, .nil, Nat.le_refl _, by simp [definedRegisters]⟩

instance [hret : Emits R (setRetPointer ins.offset)] : Emits R (translateRet stack ins) := by
  rw [setRetPointer] at hret
  unfold translateRet
  dsimp only
  infer_instance

instance : Emits R (translateJmpP stack jumps ins) := by
  unfold translateJmpP
  infer_instance

instance : Emits R (getBranchTarget jumps ins) :=
  inferInstanceAs (Emits R (atOrThrow _))

instance : Emits R (getConditionalFailBranchTarget jumps ins) :=
  inferInstanceAs (Emits R (atOrThrow _))

instance (pred : Pred) (type : Ty) : Emits R (emitConditionalBranch jumps ins pred type) := by
  unfold emitConditionalBranch
  infer_instance

theorem translateOpcode_of_ordinary (h : ins.bc.endsBlock = false) :
    translateOpcode stack jumps ins = translateOrdinary stack ins >>= fun _ => pure none := by
  rw [translateOpcode]
  cases hbc : ins.bc <;> rw [hbc] at h <;> first | rfl | exact absurd h (by decide)

/-- The code that ends a block. -/
theorem translateOpcode_emits_of_endsBlock [Emits R (setRetPointer ins.offset)]
    (h : ins.bc.endsBlock = true) : Emits R (translateOpcode stack jumps ins) := by
  rw [translateOpcode]
  cases hbc : ins.bc <;> rw [hbc] at h <;> first
    | exact absurd h (by decide)
    | dsimp only
      infer_instance

/-- **Every instruction appends checked pieces**, also the ones that end a block. -/
instance translateOpcode_emits : Emits Appends (translateOpcode stack jumps ins) := by
  cases h : ins.bc.endsBlock with
  | true => exact translateOpcode_emits_of_endsBlock stack jumps ins h
  | false =>
      rw [translateOpcode_of_ordinary stack jumps ins h]
      refine ⟨fun hrun => ?_⟩
      obtain ⟨_, t, hcode, hrun⟩ := runs_bind.mp hrun
      obtain ⟨-, rfl⟩ := runs_pure.mp hrun
      exact ((translateOrdinary_emits stack ins).effect hcode).pieces

/-- **Every instruction but those that free or copy a reference calls no behaviour.** -/
theorem translateOpcode_emits_mute (h : ins.bc.callsBehaviour = false) :
    Emits AppendsMute (translateOpcode stack jumps ins) := by
  cases hends : ins.bc.endsBlock with
  | true => exact translateOpcode_emits_of_endsBlock stack jumps ins hends
  | false =>
      have hordinary : Emits AppendsMute (translateOrdinary stack ins) :=
        translateOrdinary_emits_of_mute stack ins h fun _ _ => inferInstance
      rw [translateOpcode_of_ordinary stack jumps ins hends]
      infer_instance

end Terminators

/-! ### The local structures -/

section LocalStructures

variable {R : EmitState → EmitState → Prop} [hR : CodeRelation R]
variable (config : JitConfig) (types : List Ty) (st : ParameterStorage) (context : FunctionContext)

instance (slot : AllocaId) (bytes : ℕ) : Emits R (emitInstr (.alloca slot bytes)) where
  effect h := by
    rw [runs_emitInstr.mp h]
    exact hR.extend (.instr rfl .nil) (.cons ⟨rfl, rfl⟩ .nil) rfl

instance (ptr : Operand) (byte : BitVec 8) (bytes : ℕ) :
    Emits R (emitInstr (.memset ptr byte bytes)) where
  effect h := by
    rw [runs_emitInstr.mp h]
    exact hR.extend (.instr rfl .nil) (.cons ⟨rfl, rfl⟩ .nil) rfl

instance (type : DataType) : Emits R (allocateParameter config types st type) := by
  unfold allocateParameter
  infer_instance

instance (function : ScriptFunction) : Emits R (allocateReturned config types function st) := by
  unfold allocateReturned
  infer_instance

instance : Emits R (allocateParameterStorage context) := by
  unfold allocateParameterStorage
  infer_instance

/-- Where the stack pointer starts. -/
abbrev setStackPointer (offset : ℤ) : EmitM Unit :=
  modify fun s => { s with stackPointer := offset }

instance (offset : ℤ) : Emits AppendsMute (setStackPointer offset) where
  effect h := by
    rw [runs_modify.mp h]
    exact ⟨[], by simp, .nil⟩

/-- **The local structures are plain code.** -/
theorem emitAllocateLocalStructures_emits [hstart : Emits R (setStackPointer context.variableSpace)] :
    Emits R (emitAllocateLocalStructures context) := by
  rw [setStackPointer] at hstart
  -- the registers and the storage are allocated, then the rest is set up
  have hrest : ∀ parameters : List (ℤ × Parameter), Emits R (do
      modify fun s => { s with stackPointer := context.variableSpace }
      createStore (constantInt .i64 0) valueRegister
      createStore ⟨.const 0, .pvoid⟩ objectRegister
      emitInstr (.memset StackFrame.storageAlloca.op 0 (4 * context.totalSpace.toNat))
      pure ({ context with parameters := parameters } : StackFrame)) :=
    fun parameters => inferInstance
  unfold emitAllocateLocalStructures
  infer_instance

/-- **The local structures call no behaviour.** -/
theorem emitAllocateLocalStructures_emits_mute :
    Emits AppendsMute (emitAllocateLocalStructures context) :=
  emitAllocateLocalStructures_emits context

end LocalStructures

end Asllvm
