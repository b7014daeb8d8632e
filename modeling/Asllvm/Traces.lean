import Asllvm.ReturnValues

/-!
# What Code Writes and Calls

The code of an instruction acts on the world by writing memory and by calling. `events` lists both
in order, along the same path that `runCode` takes, and `Traced` carries the two together: a piece
of code is traced once, and pieces are put together by `Traced.append`.

Calls are made of the same few parts. Slots are popped (`popPieces`), an object is checked
(`nullCheck`), and then the call itself is made and its outcome checked.

## Main results

* `popPieces_traced` — popped slots are in consecutive registers, and nothing has happened.
* `emitScriptCall_method_code`, `emitSystemCall_method_code` — the code of a call of a method that
  returns nothing.
-/

open StateExcept Slots

namespace Asllvm

/-- Something that code does outside its registers: a write to memory, or a call. -/
inductive Event
  | write (address size : ℕ) (value : Word)
  | call (request : Request)

/-- What an instruction other than a call does outside the registers. -/
def Instr.writes (env : Env) (regs : Regs) : Instr → List Event
  | .store ty value ptr =>
      [.write (ptr.eval env regs).toNat ty.storeSize (ty.truncate (value.eval env regs))]
  | .memset ptr byte bytes => (List.range bytes).map fun i =>
      .write ((ptr.eval env regs).toNat + i) 1 (byte.setWidth 64)
  | _ => []

/-- The **events of code**, in order, up to where it leaves or gets stuck. -/
def events (env : Env) (host : Host) : List Piece → Progress → List Event
  | [], _ => []
  | .instr (.call dst callee args) :: ps, p =>
      .call ⟨callee, args.map (·.eval env p.regs), p.world.mem⟩ ::
        events env host ps (p.call host dst callee (args.map (·.eval env p.regs)))
  | .instr i :: ps, p =>
      match i.exec env p.regs p.world.mem with
      | some (regs, mem) => i.writes env p.regs ++ events env host ps ⟨regs, mem, p.world.calls⟩
      | none => []
  | .check cond _ :: ps, p =>
      if (cond.eval env p.regs).getLsbD 0 then [] else events env host ps p

/-- The writes among some events: address, width and value. -/
def writesOf (es : List Event) : List (ℕ × ℕ × Word) :=
  es.filterMap fun
    | .write address size value => some (address, size, value)
    | _ => none

/-- The calls of functions among some events, those of the runtime left out. -/
def functionCalls (es : List Event) : List Request :=
  es.filterMap fun
    | .call ⟨.runtime _, _, _⟩ => none
    | .call request => some request
    | _ => none

/-- **Code runs to its end**, with the events `es` on the way. -/
def Traced (env : Env) (host : Host) (p : Progress) (ps : List Piece) (es : List Event)
    (p' : Progress) : Prop :=
  runCode env host ps p = .goes p' ∧ events env host ps p = es

/-- What is called leaves `n` bytes from `start` on alone, such as the temporaries of its caller. -/
def Host.Spares (host : Host) (start n : ℕ) : Prop :=
  ∀ request calls a, start ≤ a → a < start + n → (host (request :: calls)).2 a = request.mem a

/-- The **word of a slot**, at a type. -/
def StackFrame.slotWord (stack : StackFrame) (layout : FrameLayout) (mem : Bytes.Mem) (offset : ℤ)
    (ty : Ty) : Word :=
  ty.truncate (Bytes.read mem (stack.byteAddress layout offset) ty.storeSize)

/-- The word of a slot, at its own type. -/
def pushedWord (stack : StackFrame) (layout : FrameLayout) (mem : Bytes.Mem) (offset : ℤ)
    (type : DataType) : Word :=
  match toLlvmType type with
  | .ok ty => stack.slotWord layout mem offset ty
  | .error _ => 0

/-- The words of the **arguments on the stack**, from the depth `sp` down. -/
def pushedArguments (stack : StackFrame) (layout : FrameLayout) (mem : Bytes.Mem) :
    ℤ → List DataType → List Word
  | _, [] => []
  | sp, type :: types => pushedWord stack layout mem sp type ::
      pushedArguments stack layout mem (sp - type.sizeOnStackDWords) types

section Traced

variable {env : Env} {host : Host} {p p' p'' : Progress} {ps qs : List Piece} {es es' : List Event}
  {regs regs' : Regs} {mem mem' : Bytes.Mem} {calls : List Request} {i : Instr}

@[simp]
theorem writesOf_append : writesOf (es ++ es') = writesOf es ++ writesOf es' := List.filterMap_append

@[simp]
theorem functionCalls_append :
    functionCalls (es ++ es') = functionCalls es ++ functionCalls es' := List.filterMap_append

theorem events_instr (hcall : ∀ dst callee args, i ≠ .call dst callee args) :
    events env host (.instr i :: ps) p =
      match i.exec env p.regs p.world.mem with
      | some (regs, mem) => i.writes env p.regs ++ events env host ps ⟨regs, mem, p.world.calls⟩
      | none => [] := by
  cases i with
  | call dst callee args => exact absurd rfl (hcall dst callee args)
  | _ => rfl

/-- The events of pieces that run to their end, and then of more pieces, by induction on the
first. -/
theorem events_append (h : runCode env host ps p = .goes p') :
    events env host (ps ++ qs) p = events env host ps p ++ events env host qs p' := by
  induction ps generalizing p with
  | nil =>
      obtain rfl := CodeResult.goes.inj h
      rfl
  | cons piece ps ih =>
      rw [List.cons_append]
      cases piece with
      | check cond state =>
          rw [runCode] at h
          rw [events, events]
          split at h
          · exact CodeResult.noConfusion h
          · rename_i hfired
            rw [if_neg hfired, if_neg hfired, ih h]
      | instr i =>
          by_cases hcall : ∃ dst callee args, i = .call dst callee args
          · obtain ⟨dst, callee, args, rfl⟩ := hcall
            rw [runCode] at h
            rw [events, events, ih h]
            rfl
          · have hcall' := fun dst callee args h => hcall ⟨dst, callee, args, h⟩
            rw [runCode_instr hcall'] at h
            rw [events_instr hcall', events_instr hcall']
            cases hexec : i.exec env p.regs p.world.mem with
            | none =>
                rw [hexec] at h
                exact CodeResult.noConfusion h
            | some result =>
                obtain ⟨regs, mem⟩ := result
                rw [hexec] at h
                dsimp only at h ⊢
                rw [ih h, List.append_assoc]

/-- Pieces behind code that leaves are not run. -/
theorem events_of_leaves {state : Word} (h : runCode env host ps p = .leaves state p') :
    runCode env host (ps ++ qs) p = .leaves state p' ∧
      events env host (ps ++ qs) p = events env host ps p := by
  refine ⟨by rw [runCode_append, h], ?_⟩
  induction ps generalizing p with
  | nil => exact CodeResult.noConfusion h
  | cons piece ps ih =>
      rw [List.cons_append]
      cases piece with
      | check cond state =>
          rw [runCode] at h
          rw [events, events]
          split at h
          · rename_i hfired
            rw [if_pos hfired, if_pos hfired]
          · rename_i hfired
            rw [if_neg hfired, if_neg hfired, ih h]
      | instr i =>
          by_cases hcall : ∃ dst callee args, i = .call dst callee args
          · obtain ⟨dst, callee, args, rfl⟩ := hcall
            rw [runCode] at h
            rw [events, events, ih h]
          · have hcall' := fun dst callee args h => hcall ⟨dst, callee, args, h⟩
            rw [runCode_instr hcall'] at h
            rw [events_instr hcall', events_instr hcall']
            cases hexec : i.exec env p.regs p.world.mem with
            | none => rfl
            | some result =>
                rw [hexec] at h
                dsimp only at h ⊢
                rw [ih h]

namespace Traced

theorem nil (p : Progress) : Traced env host p [] [] p := ⟨rfl, rfl⟩

/-- Code and then more code. -/
theorem append (h : Traced env host p ps es p') (h' : Traced env host p' qs es' p'') :
    Traced env host p (ps ++ qs) (es ++ es') p'' := by
  obtain ⟨hgoes, rfl⟩ := h
  obtain ⟨hgoes', rfl⟩ := h'
  refine ⟨?_, events_append hgoes⟩
  rw [runCode_append, hgoes]
  exact hgoes'

/-- An instruction other than a call. -/
theorem instr (hexec : i.exec env regs mem = some (regs', mem')) (calls : List Request) :
    Traced env host ⟨regs, mem, calls⟩ [.instr i] (i.writes env regs) ⟨regs', mem', calls⟩ := by
  have hcall : ∀ dst callee args, i ≠ .call dst callee args := by
    rintro dst callee args rfl
    exact Option.some_ne_none _ hexec.symm
  refine ⟨runCode_step hexec, ?_⟩
  rw [events_instr hcall, hexec]
  exact List.append_nil _

/-- A call. -/
theorem call (dst : Option ℕ) (callee : Callee) (args : List Value) (p : Progress) :
    Traced env host p [.instr (.call dst callee args)]
      [.call ⟨callee, args.map (·.eval env p.regs), p.world.mem⟩]
      (p.call host dst callee (args.map (·.eval env p.regs))) := ⟨rfl, rfl⟩

/-- A call, as the host answers it. -/
theorem call_some {callee : Callee} {args : List Value} {words : List Word} {v : Word}
    (hargs : args.map (·.eval env regs) = words)
    (hanswer : host (⟨callee, words, mem⟩ :: calls) = (v, mem')) (r : ℕ) :
    Traced env host ⟨regs, mem, calls⟩ [.instr (.call (some r) callee args)]
      [.call ⟨callee, words, mem⟩] ⟨Function.update regs r v, mem', ⟨callee, words, mem⟩ :: calls⟩ := by
  have htraced : Traced env host ⟨regs, mem, calls⟩ [.instr (.call (some r) callee args)] _ _ :=
    .call (some r) callee args _
  rw [hargs, Progress.call_eq hanswer] at htraced
  exact htraced

/-- A check that does not fire. -/
theorem check {cond state : Operand} (h : (cond.eval env p.regs).getLsbD 0 = false) :
    Traced env host p [.check cond state] [] p := by
  have hnot : ¬ (cond.eval env p.regs).getLsbD 0 = true := fun hfired =>
    Bool.false_ne_true (h.symm.trans hfired)
  refine ⟨?_, ?_⟩
  · rw [runCode, if_neg hnot, runCode]
  · rw [events, if_neg hnot, events]

section Pointers

variable {T : Translation} {o : ℤ}

/-- A pointer is loaded from a slot. -/
theorem load_slot (ty : Ty) (hact : Activates T env) (hframe : T.stack.InFrame o 8) (regs : Regs)
    (mem : Bytes.Mem) (calls : List Request) (r : ℕ) :
    Traced env host ⟨regs, mem, calls⟩ [.instr (.load r (.ptr ty) (T.stack.slotAddress o))] []
      ⟨Function.update regs r (Bytes.read mem (T.stack.byteAddress env.layout o) 8), mem, calls⟩ :=
  .instr (exec_load_pointer ty hact hframe regs mem r) calls

/-- A pointer is stored to a slot. -/
theorem store_slot (ty : Ty) (hact : Activates T env) (hframe : T.stack.InFrame o 8) (regs : Regs)
    (mem : Bytes.Mem) (calls : List Request) (r : ℕ) :
    Traced env host ⟨regs, mem, calls⟩ [.instr (.store (.ptr ty) (.reg r) (T.stack.slotAddress o))]
      [.write (T.stack.byteAddress env.layout o) 8 (regs r)]
      ⟨regs, Bytes.write mem (T.stack.byteAddress env.layout o) 8 (regs r), calls⟩ := by
  have htraced : Traced env host ⟨regs, mem, calls⟩ _ _ _ :=
    .instr (hframe.exec_store (.ptr ty) hact regs mem (.reg r)) calls
  rwa [Instr.writes, hframe.eval_slotAddress hact, Ty.truncate_ptr] at htraced

/-- A pointer is stored through another one. -/
theorem store_reg (ty : Ty) (regs : Regs) (mem : Bytes.Mem) (calls : List Request) (r k : ℕ) :
    Traced env host ⟨regs, mem, calls⟩ [.instr (.store (.ptr ty) (.reg r) (.reg k))]
      [.write (regs k).toNat 8 (regs r)] ⟨regs, Bytes.write mem (regs k).toNat 8 (regs r), calls⟩ := by
  have htraced : Traced env host ⟨regs, mem, calls⟩ _ _ _ :=
    .instr (exec_store_reg (.ptr ty) regs mem k (.reg r)) calls
  rwa [Instr.writes, Ty.truncate_ptr] at htraced

end Pointers

/-- What comes after traced code decides what the whole comes to. -/
theorem runCode_eq (h : Traced env host p ps es p') :
    runCode env host (ps ++ qs) p = runCode env host qs p' := by
  rw [runCode_append, h.1]

theorem events_eq (h : Traced env host p ps es p') :
    events env host (ps ++ qs) p = es ++ events env host qs p' := by
  rw [events_append h.1, h.2]

end Traced

end Traced

/-! ### The parts of a call -/

section Parts

variable {T : Translation} {stack : StackFrame} {env : Env} {host : Host} {p : Progress} {r : ℕ}
  {sp : ℤ} {slots : List DataType} {types : List Ty} {layout : FrameLayout} {mem : Bytes.Mem}

/-- **Popping slots** sets one register for each, and does nothing else; by induction on the
slots. -/
theorem popPieces_traced (hact : Activates T env)
    (hframe : ∀ (k : ℕ) slot ty, slots[k]? = some slot → types[k]? = some ty →
      T.stack.InFrame (sp - slotOffset slots k) ty.storeSize) (p : Progress) :
    ∃ regs, Traced env host p (popPieces T.stack r sp slots types) [] ⟨regs, p.world⟩ ∧
      (∀ j < r, regs j = p.regs j) ∧
      ∀ (k : ℕ) slot ty, slots[k]? = some slot → types[k]? = some ty →
        regs (r + k) = T.stack.slotWord env.layout p.world.mem (sp - slotOffset slots k) ty := by
  induction slots generalizing r sp types p with
  | nil => exact ⟨p.regs, .nil p, fun _ _ => rfl, fun k slot ty hslot => by simp at hslot⟩
  | cons slot slots ih =>
      cases types with
      | nil => exact ⟨p.regs, .nil p, fun _ _ => rfl, fun k slot ty _ hty => by simp at hty⟩
      | cons ty types =>
          have hfirst := hframe 0 slot ty rfl rfl
          rw [slotOffset, offset_zero, Nat.cast_zero, Int.sub_zero] at hfirst
          have hload := hfirst.exec_load ty hact p.regs p.world.mem r
          have hoffset : ∀ k : ℕ, sp - slotOffset (slot :: slots) (k + 1) =
              sp - slot.sizeOnStackDWords - slotOffset slots k := by
            intro k
            rw [slotOffset, offset_cons_succ, Nat.cast_add, Int.sub_sub]
          obtain ⟨regs, hrest, hkept, hwords⟩ := @ih (r + 1) (sp - slot.sizeOnStackDWords) types
            (fun k slot' ty' hslot hty => hoffset k ▸ hframe (k + 1) slot' ty' hslot hty)
            ⟨Function.update p.regs r
              (T.stack.slotWord env.layout p.world.mem sp ty), p.world⟩
          refine ⟨regs, (Traced.instr hload p.world.calls).append hrest, fun j hj => ?_,
            fun k slot' ty' hslot hty => ?_⟩
          · exact (hkept j (by omega)).trans (Function.update_of_ne (by omega) _ _)
          · cases k with
            | zero =>
                obtain rfl : ty = ty' := by simpa using hty
                rw [slotOffset, offset_zero, Nat.cast_zero, Int.sub_zero, Nat.add_zero]
                exact (hkept r (by omega)).trans (Function.update_self _ _ _)
            | succ k =>
                rw [hoffset, ← hwords k slot' ty' (by simpa using hslot) (by simpa using hty)]
                congr 1
                omega

/-- The loaded values, evaluated, where the registers hold some words. -/
theorem map_eval_loadedValues {regs : Regs} {words : List Word} (hlen : words.length = types.length)
    (h : ∀ (k : ℕ) ty w, types[k]? = some ty → words[k]? = some w →
      ty.truncate (regs (r + k)) = w) :
    (loadedValues r types).map (·.eval env regs) = words := by
  induction types generalizing r words with
  | nil => rw [List.length_eq_zero_iff.mp hlen]; rfl
  | cons ty types ih =>
      obtain ⟨w, words, rfl⟩ := List.exists_cons_of_length_eq_add_one hlen
      have hrest := @ih (r + 1) words (by simpa using hlen) fun k ty' w' hty hw => by
        have hword := h (k + 1) ty' w' (by simpa using hty) (by simpa using hw)
        rwa [Nat.add_comm k, ← Nat.add_assoc] at hword
      have hfirst : (⟨.reg r, ty⟩ : Value).eval env regs = w := h 0 ty w rfl rfl
      rw [loadedValues, List.map_cons, hfirst, hrest]

theorem pushedArguments_length : (pushedArguments stack layout mem sp slots).length = slots.length := by
  induction slots generalizing sp with
  | nil => rfl
  | cons type slots ih => rw [pushedArguments, List.length_cons, ih, List.length_cons]

/-- The `k`-th argument lies at the offset of its slot. -/
theorem pushedArguments_get {k : ℕ} {type : DataType} (h : slots[k]? = some type) :
    (pushedArguments stack layout mem sp slots)[k]? =
      some (pushedWord stack layout mem (sp - slotOffset slots k) type) := by
  induction slots generalizing sp k with
  | nil => simp at h
  | cons first slots ih =>
      cases k with
      | zero =>
          obtain rfl : first = type := by simpa using h
          rw [slotOffset, offset_zero, Nat.cast_zero, Int.sub_zero]
          rfl
      | succ k =>
          rw [slotOffset, offset_cons_succ, Nat.cast_add, ← Int.sub_sub]
          exact ih (by simpa using h)

/-- **Popped slots, as arguments**: whoever passes the registers passes the words of the slots. -/
theorem popPieces_arguments {types : List Ty} (host : Host) (r : ℕ) (hact : Activates T env)
    (htypes : slots.mapM toLlvmType = .ok types)
    (hframe : ∀ (k : ℕ) slot ty, slots[k]? = some slot → types[k]? = some ty →
      T.stack.InFrame (sp - slotOffset slots k) ty.storeSize) (p : Progress) :
    ∃ regs, Traced env host p (popPieces T.stack r sp slots types) [] ⟨regs, p.world⟩ ∧
      (∀ j < r, regs j = p.regs j) ∧
      ∀ regs' : Regs, (∀ k < slots.length, regs' (r + k) = regs (r + k)) →
        (loadedValues r types).map (·.eval env regs') =
          pushedArguments T.stack env.layout p.world.mem sp slots := by
  have hall := mapM_eq_ok.mp htypes
  obtain ⟨regs, htraced, hkept, hwords⟩ := @popPieces_traced T env host r sp slots types hact hframe p
  refine ⟨regs, htraced, hkept, fun regs' hregs => map_eval_loadedValues ?_ fun k ty w hty hw => ?_⟩
  · rw [pushedArguments_length, hall.length_eq]
  · have hlt := (List.getElem?_eq_some_iff.mp hty).1
    have hk : k < slots.length := hall.length_eq ▸ hlt
    have hslot := List.getElem?_eq_getElem hk
    have hslotTy : toLlvmType slots[k] = .ok types[k] := hall.get hk hlt
    obtain rfl : types[k] = ty := by simpa [hlt] using hty
    have hword := (pushedArguments_get hslot).symm.trans hw
    rw [pushedWord, hslotTy] at hword
    obtain rfl := Option.some.inj hword
    rw [hregs k hk, hwords k _ _ hslot hty, StackFrame.slotWord, Ty.truncate_truncate]
    rfl

/-- **A null check** of a pointer that is not null does nothing. -/
theorem nullCheck_traced {pointer : Value} (hty : pointer.ty.bits = 64)
    (h : pointer.op.eval env p.regs ≠ 0) : Traced env host p (nullCheck pointer r) []
      ⟨Function.update p.regs r 0, p.world⟩ := by
  have hexec : (Instr.icmp r .eq pointer.ty pointer.op (.const 0)).exec env p.regs p.world.mem =
      some (Function.update p.regs r 0, p.world.mem) := by
    rw [Instr.exec, Pred.holds, Bool.beq_eq_decide_eq, hty, BitVec.setWidth_eq, Operand.eval,
      BitVec.setWidth_eq, decide_eq_false h]
    rfl
  have hfired : ((Operand.reg r).eval env (Function.update p.regs r (0 : Word))).getLsbD 0 = false := by
    rw [Operand.eval, Function.update_self]
    rfl
  exact (Traced.instr hexec p.world.calls).append (.check hfired)

/-- A check alone does nothing, and gets nowhere stuck. -/
theorem check_events (env : Env) (host : Host) (cond state : Operand) (p : Progress) :
    events env host [.check cond state] p = [] ∧
      ∀ p', runCode env host [.check cond state] p ≠ .stuck p' := by
  rw [events, runCode]
  split
  · exact ⟨rfl, fun _ => CodeResult.noConfusion⟩
  · exact ⟨rfl, fun _ => CodeResult.noConfusion⟩

/-- **The end of a script call** makes that call, and then it goes on or leaves. -/
theorem scriptCallCode_events (env : Env) (host : Host) (r : ℕ) (target : Operand)
    (args : List Value) (p : Progress) :
    events env host (scriptCallCode r target args) p =
        [.call ⟨.script target, args.map (·.eval env p.regs), p.world.mem⟩] ∧
      ∀ p', runCode env host (scriptCallCode r target args) p ≠ .stuck p' := by
  obtain ⟨regs, hcompare⟩ : ∃ regs, (Instr.icmp (r + 1) .ne .i8 (.reg r) VmState.Ok.const.op).exec env
      (p.call host (some r) (.script target) (args.map (·.eval env p.regs))).regs
      (p.call host (some r) (.script target) (args.map (·.eval env p.regs))).world.mem =
        some (regs, (p.call host (some r) (.script target)
          (args.map (·.eval env p.regs))).world.mem) := ⟨_, rfl⟩
  have htraced := (Traced.call (some r) (.script target) args p).append (.instr hcompare _)
  have hcode : scriptCallCode r target args = ([.instr (.call (some r) (.script target) args)] ++
      [.instr (.icmp (r + 1) .ne .i8 (.reg r) VmState.Ok.const.op)]) ++
        [.check (.reg (r + 1)) (.reg r)] := rfl
  rw [hcode, htraced.events_eq, htraced.runCode_eq]
  obtain ⟨hevents, hstuck⟩ := check_events env host (.reg (r + 1)) (.reg r) ⟨regs, _⟩
  rw [hevents]
  exact ⟨rfl, hstuck⟩

/-- **The check of the context** asks for the status, and then it goes on in the memory that this has
left, or leaves. -/
theorem contextCheck_events (env : Env) (host : Host) (r : ℕ) (p : Progress) :
    events env host (contextCheck r) p =
        [.call ⟨.runtime .checkExecutionStatus, [], p.world.mem⟩] ∧
      ((∃ state p', runCode env host (contextCheck r) p = .leaves state p') ∨
        ∃ regs, (∀ j < r, regs j = p.regs j) ∧ Traced env host p (contextCheck r)
          [.call ⟨.runtime .checkExecutionStatus, [], p.world.mem⟩]
          ⟨regs, p.world.call host (.runtime .checkExecutionStatus) []⟩) := by
  let asked := p.call host (some r) (.runtime .checkExecutionStatus) []
  obtain ⟨v, hcompare⟩ : ∃ v, (Instr.icmp (r + 1) .ne .vmState (.reg r) (.const 0)).exec env
      asked.regs asked.world.mem = some (Function.update asked.regs (r + 1) v, asked.world.mem) :=
    ⟨_, rfl⟩
  have htraced := (Traced.call (some r) (.runtime .checkExecutionStatus) [] p).append
    (.instr hcompare asked.world.calls)
  have hcode : contextCheck r =
      ([.instr (.call (some r) (.runtime .checkExecutionStatus) [])] ++
        [.instr (.icmp (r + 1) .ne .vmState (.reg r) (.const 0))]) ++
          [.check (.reg (r + 1)) VmState.ExceptionExternal.const.op] := rfl
  rw [hcode, htraced.events_eq, htraced.runCode_eq,
    (check_events env host (.reg (r + 1)) VmState.ExceptionExternal.const.op _).1]
  refine ⟨rfl, ?_⟩
  cases hfired : ((Operand.reg (r + 1)).eval env (Function.update asked.regs (r + 1) v)).getLsbD 0 with
  | true =>
      left
      rw [runCode, if_pos hfired]
      exact ⟨_, _, rfl⟩
  | false =>
      right
      refine ⟨Function.update asked.regs (r + 1) v, fun j hj => ?_, htraced.append (.check hfired)⟩
      exact (Function.update_of_ne (by omega) _ _).trans (Function.update_of_ne (by omega) _ _)

end Parts

/-! ### Calls of methods that return nothing -/

section Code

variable {stack : StackFrame} {callee function : ScriptFunction} {e e' : EmitState} {n m : ℕ}

/-- The parameters of a script call are popped into consecutive registers. -/
theorem parameterArguments_code {types : List DataType} {vs : List Value}
    (h : Runs (parameterArguments stack none types n) e (vs, m) e') :
    ∃ tys, types.mapM toLlvmType = .ok tys ∧ vs = loadedValues e.nextReg tys ∧
      e' = afterPops stack e types tys := by
  induction types generalizing n m vs e with
  | nil =>
      obtain ⟨⟨rfl, -⟩, rfl⟩ := by simpa [parameterArguments] using h
      exact ⟨[], rfl, rfl, by simp [afterPops, popPieces]⟩
  | cons type types ih =>
      simp only [parameterArguments, popArgument, runs_bind, runs_lift, runs_pure,
        Prod.mk.injEq] at h
      obtain ⟨_, _, ⟨ty, _, ⟨hty, rfl⟩, v, _, hpop, rfl, rfl⟩, ⟨values, k⟩, _, hrest, ⟨rfl, -⟩, rfl⟩ := h
      obtain ⟨-, rfl, rfl⟩ := (StackFrame.runs_pop stack).mp hpop
      obtain ⟨tys, htys, rfl, rfl⟩ := ih hrest
      refine ⟨ty :: tys, mapM_eq_ok.mpr (.cons hty (mapM_eq_ok.mp htys)), rfl, ?_⟩
      exact afterPops_cons

/-- The code of a script call of a method that returns nothing, whose object lies at the depth `sp`. -/
def methodCallCode (stack : StackFrame) (r : ℕ) (sp : ℤ) (ty : Ty) (types : List DataType)
    (tys : List Ty) (target : Operand) : List Piece :=
  [.instr (.load r (.ptr ty) (stack.slotAddress sp))] ++ (nullCheck ⟨.reg r, .ptr ty⟩ (r + 1) ++
    (popPieces stack (r + 2) (sp - asPtrSize) types tys ++
      scriptCallCode (r + 2 + types.length) target (⟨.reg r, .ptr ty⟩ :: loadedValues (r + 2) tys)))

/-- **The code of a script call of a method that returns nothing**: the object is popped and checked,
the parameters are popped, and the call passes all of them in order. -/
theorem emitScriptCall_method_code {objectType : ObjectType}
    (hscript : callee.funcType = .asFUNC_SCRIPT) (hvoid : callee.returnType.tokenType = .ttVoid)
    (hobject : callee.objectType = some objectType)
    (hprim : (stack.engine.objectDataType objectType).isPrimitive = false)
    (hsize : (stack.engine.objectDataType objectType).sizeOnStackDWords = asPtrSize)
    (h : Runs (emitScriptCall stack callee) e n e') :
    ∃ ty tys, callee.parameterTypes.mapM toLlvmType = .ok tys ∧
      e'.out = e.out ++ methodCallCode stack e.nextReg e.stackPointer ty callee.parameterTypes tys
        (.scriptFunction callee.id) := by
  have hvirtual : callee.funcType ≠ .asFUNC_VIRTUAL := by rw [hscript]; exact FuncType.noConfusion
  simp only [emitScriptCall, resolveCallee, if_neg hvirtual, getScriptFunction, returnArguments, hvoid,
    ne_eq, not_true_eq_false, if_false, objectArguments, hobject, popArgument, runs_bind,
    runs_asllvmAssert, runs_lift, runs_pure, runs_emitCheckNullPointer, runs_createCall_i8,
    runs_emitCheckVmState, hsize] at h
  obtain ⟨_, _, ⟨-, rfl⟩, _, _, ⟨-, rfl⟩, target, _, ⟨_, _, ⟨-, rfl⟩, rfl, rfl⟩, _, _, ⟨rfl, rfl⟩, _, _,
    ⟨⟨v, k⟩, _, ⟨ty, _, ⟨hty, rfl⟩, _, _, hpop, hv, rfl⟩, _, _, rfl, rfl, rfl⟩, ⟨vs, l⟩, _,
    hparameters, _, _, ⟨rfl, rfl⟩, _, _, rfl, -, rfl⟩ := h
  obtain ⟨-, rfl, rfl⟩ := (StackFrame.runs_pop stack).mp hpop
  obtain ⟨rfl, rfl⟩ := Prod.mk.inj hv
  obtain ⟨structId, rfl⟩ := toLlvmType_eq_ptr hprim hty
  obtain ⟨tys, htys, rfl, rfl⟩ := parameterArguments_code hparameters
  refine ⟨.struct structId, tys, htys, ?_⟩
  simp [methodCallCode, afterPops, nullCheck, scriptCallCode, Int.sub_eq_add_neg, Nat.add_assoc]

/-- **A call of a script method, run**: it passes the object and the parameters on the stack. -/
theorem methodCallCode_events {T : Translation} {env : Env} {sp : ℤ} {types : List DataType}
    {tys : List Ty} {mem : Bytes.Mem} {object : Word} (host : Host) (r : ℕ) (ty : Ty)
    (target : Operand) (hact : Activates T env) (hslot : T.stack.InFrame sp 8)
    (hobject : Bytes.read mem (T.stack.byteAddress env.layout sp) 8 = object) (hne : object ≠ 0)
    (htys : types.mapM toLlvmType = .ok tys)
    (hframe : ∀ (k : ℕ) type ty, types[k]? = some type → tys[k]? = some ty →
      T.stack.InFrame (sp - asPtrSize - slotOffset types k) ty.storeSize) (regs : Regs)
    (calls : List Request) :
    events env host (methodCallCode T.stack r sp ty types tys target) ⟨regs, mem, calls⟩ =
        [.call ⟨.script target, object ::
          pushedArguments T.stack env.layout mem (sp - asPtrSize) types, mem⟩] ∧
      ∀ p', runCode env host (methodCallCode T.stack r sp ty types tys target) ⟨regs, mem, calls⟩ ≠
        .stuck p' := by
  have hloaded : Traced env host ⟨regs, mem, calls⟩ _ _ _ := .load_slot ty hact hslot regs mem calls r
  rw [hobject] at hloaded
  have hvalue : (Operand.reg r).eval env (Function.update regs r object) = object :=
    Function.update_self _ _ _
  have hchecked : Traced env host ⟨Function.update regs r object, mem, calls⟩
      (nullCheck ⟨.reg r, .ptr ty⟩ (r + 1)) _ _ := nullCheck_traced rfl (hvalue.symm ▸ hne)
  obtain ⟨regs', hpopped, hkept, hwords⟩ := popPieces_arguments host (r + 2) hact htys hframe
    ⟨Function.update (Function.update regs r object) (r + 1) 0, mem, calls⟩
  have hfirst : regs' r = object := by
    rw [hkept r (by omega)]
    exact (Function.update_of_ne (by omega) _ _).trans hvalue
  have hargs : ((⟨.reg r, .ptr ty⟩ :: loadedValues (r + 2) tys : List Value)).map
      (·.eval env regs') = object :: pushedArguments T.stack env.layout mem (sp - asPtrSize) types := by
    rw [List.map_cons, hwords regs' fun _ _ => rfl, Value.eval, Ty.truncate_ptr, Operand.eval, hfirst]
  obtain ⟨hevents, hstuck⟩ := scriptCallCode_events env host _ target
    (⟨.reg r, .ptr ty⟩ :: loadedValues (r + 2) tys) ⟨regs', mem, calls⟩
  rw [hargs] at hevents
  dsimp only at hchecked
  rw [methodCallCode, hloaded.events_eq, hloaded.runCode_eq, hchecked.events_eq, hchecked.runCode_eq,
    hpopped.events_eq, hpopped.runCode_eq, hevents]
  exact ⟨rfl, hstuck⟩

/-- The lookup of the callee of a system call, if it is virtual. -/
def lookupCode (function : ScriptFunction) (object : Value) (r : ℕ) : List Piece :=
  if function.sysFuncIntf.callConv = .ICC_VIRTUAL_THISCALL then [.instr (.call (some r)
    (.runtime .systemVtableLookup) [object, ⟨.const function.sysFuncIntf.func, .pvoid⟩])]
  else []

/-- What a system call goes to: the function itself, or what was looked up. -/
def nativeTarget (function : ScriptFunction) (r : ℕ) : Operand :=
  if function.sysFuncIntf.callConv = .ICC_VIRTUAL_THISCALL then .reg r
  else .systemFunction function.id

/-- The native call of a function that returns nothing. -/
def voidCallCode (target : Operand) (args : List Value) : List Piece := [
  .instr (.call none (.runtime .prepareSystemCall) [⟨target, .pvoid⟩]),
  .instr (.call none (.system target) args)]

/-- The native arguments of a method: the object before its parameters, or behind them. -/
def methodArguments {α : Type} (function : ScriptFunction) (object : α) (parameters : List α) :
    List α :=
  if function.sysFuncIntf.callConv = .ICC_CDECL_OBJLAST then parameters ++ [object]
  else object :: parameters

/-- The argument loop of a method that returns nothing. -/
theorem systemCallArguments_method {tys : List Ty}
    (hobject : function.sysFuncIntf.callConv.hasObject = true)
    (hmem : function.sysFuncIntf.hostReturnInMemory = false)
    (hlen : tys.length = function.parameterTypes.length)
    (hpop : Poppable stack (pointerSlot :: function.parameterTypes) e.stackPointer) :
    ∃ i j, Runs (systemCallArguments stack function (methodArguments function .pvoid tys)) e
      ⟨(methodArguments function ⟨.reg e.nextReg, .pvoid⟩
        (loadedValues (e.nextReg + 1) tys)).map some, i, j, some ⟨.reg e.nextReg, .pvoid⟩⟩
      (afterPops stack e (pointerSlot :: function.parameterTypes) (.pvoid :: tys)) := by
  rw [methodArguments, methodArguments]
  by_cases hlast : function.sysFuncIntf.callConv = .ICC_CDECL_OBJLAST
  · rw [if_pos hlast, if_pos hlast]
    exact ⟨_, _, objectLast_runs hlast hmem hlen hpop⟩
  · have hfirst : function.sysFuncIntf.callConv.objectFirst = true := by
      cases hconv : function.sysFuncIntf.callConv <;>
        simp_all [CallConv.hasObject, CallConv.objectFirst]
    rw [if_neg hlast, if_neg hlast]
    exact ⟨_, _, objectFirst_runs hfirst hmem hlen hpop⟩

/-- The signature of a method that returns nothing. -/
theorem getSystemFunctionType_method {tys : List Ty}
    (hobject : function.sysFuncIntf.callConv.hasObject = true)
    (hmem : function.sysFuncIntf.hostReturnInMemory = false)
    (hvoid : toLlvmType function.returnType = .ok .void)
    (htys : function.parameterTypes.mapM toLlvmType = .ok tys) :
    getSystemFunctionType function = .ok (.void, methodArguments function .pvoid tys) := by
  cases hconv : function.sysFuncIntf.callConv <;>
    simp_all [getSystemFunctionType, methodArguments, CallConv.hasObject, bind, Except.bind, pure,
      Except.pure]

/-- The callee of a system call. -/
theorem systemCallee_code {object callee : Value}
    (h : Runs (systemCallee stack function (some object)) e callee e') :
    callee = ⟨nativeTarget function e.nextReg, .pvoid⟩ ∧
      ∃ k, e' = e.extend k (lookupCode function object e.nextReg) := by
  rw [systemCallee] at h
  rw [nativeTarget, lookupCode]
  split at h
  · rename_i hvirtual
    rw [if_pos hvirtual, if_pos hvirtual]
    simp only [runs_bind, runs_asllvmAssert, runs_dereference, runs_createCall_ptr] at h
    obtain ⟨_, _, ⟨-, rfl⟩, _, _, ⟨hsome, rfl⟩, rfl, rfl⟩ := h
    obtain rfl := Option.some.inj hsome
    exact ⟨rfl, 1, rfl⟩
  · rename_i hnot
    have hvirtual : ¬ function.sysFuncIntf.callConv = .ICC_VIRTUAL_THISCALL := hnot
    rw [if_neg hvirtual, if_neg hvirtual]
    obtain ⟨rfl, rfl⟩ := runs_pure.mp h
    exact ⟨rfl, 0, (EmitState.extend_zero_nil _).symm⟩

/-- The native call of a function that returns nothing. -/
theorem callSystemFunction_void {callee result : Value} {vs : List Value}
    (h : Runs (callSystemFunction callee .void (vs.map some)) e result e') :
    result = ⟨.const 0, .void⟩ ∧ e' = e.extend 2 ([
      .instr (.call none (.runtime .prepareSystemCall) [callee]),
      .instr (.call none (.system callee.op) vs)] ++ contextCheck e.nextReg) := by
  simp only [callSystemFunction, runs_bind, runs_createCall_void, runs_emitCheckContextState,
    runs_pure] at h
  obtain ⟨_, _, ⟨-, rfl⟩, vs', s₁, hargs, _, _, ⟨rfl, rfl⟩, _, _, rfl, rfl, rfl⟩ := h
  obtain ⟨rfl, rfl⟩ := hargs.det (mapM_dereference_runs vs)
  exact ⟨rfl, by simp [contextCheck]⟩

/-- The code of a system call of a method that returns nothing, up to the check of the context. -/
def nativeMethodCode (stack : StackFrame) (function : ScriptFunction) (r : ℕ) (sp : ℤ)
    (tys : List Ty) : List Piece :=
  let object : Value := ⟨.reg r, .pvoid⟩
  let next := r + 1 + function.parameterTypes.length
  [.instr (.load r .pvoid (stack.slotAddress sp))] ++
    (popPieces stack (r + 1) (sp - asPtrSize) function.parameterTypes tys ++
      (nullCheck object next ++ (lookupCode function object (next + 1) ++
        voidCallCode (nativeTarget function (next + 1))
          (methodArguments function object (loadedValues (r + 1) tys)))))

/-- **The code of a system call of a method that returns nothing**: the object and the parameters are
popped, the object is checked, and the native call passes all of them in its order. -/
theorem emitSystemCall_method_code (hcallable : function.Callable)
    (hobject : function.sysFuncIntf.callConv.hasObject = true)
    (hvoid : toLlvmType function.returnType = .ok .void) (hstack : function.doesReturnOnStack = false)
    (hpop : Poppable stack (pointerSlot :: function.parameterTypes) e.stackPointer)
    (h : Runs (emitSystemCall stack function) e () e') :
    ∃ tys r', function.parameterTypes.mapM toLlvmType = .ok tys ∧ e.nextReg < r' ∧
      r' < e'.nextReg ∧
      e'.out = e.out ++
        (nativeMethodCode stack function e.nextReg e.stackPointer tys ++ contextCheck r') := by
  have hmem : function.sysFuncIntf.hostReturnInMemory = false := by
    cases hmem : function.sysFuncIntf.hostReturnInMemory with
    | false => rfl
    | true => exact absurd (hcallable.hostReturn hmem) (by simp [hstack])
  obtain ⟨tys, htys⟩ := exists_mapM_toLlvmType hcallable.parameters
  have hlen : tys.length = function.parameterTypes.length := (mapM_eq_ok.mp htys).length_eq.symm
  obtain ⟨i, j, hloop⟩ := systemCallArguments_method hobject hmem hlen hpop
  simp only [emitSystemCall, runs_bind, runs_lift,
    getSystemFunctionType_method hobject hmem hvoid htys, popReturnPointer, hstack] at h
  obtain ⟨_, _, ⟨hsig, rfl⟩, pointer, s₁, hreturn, st, s₂, hargs, hfinish⟩ := h
  obtain rfl := Except.ok.inj hsig
  obtain ⟨rfl, rfl⟩ := runs_pure.mp hreturn
  obtain ⟨rfl, rfl⟩ := hargs.det hloop
  rw [finishSystemCall] at hfinish
  obtain ⟨_, _, hcheck, hfinish⟩ := runs_bind.mp hfinish
  obtain ⟨callee, s₃, hcallee, hfinish⟩ := runs_bind.mp hfinish
  obtain ⟨result, s₄, hcall, hfinish⟩ := runs_bind.mp hfinish
  obtain ⟨_, s₅, hstore, hhack⟩ := runs_bind.mp hfinish
  obtain rfl := runs_emitCheckNullPointer.mp hcheck
  obtain ⟨rfl, k, rfl⟩ := systemCallee_code hcallee
  obtain ⟨rfl, rfl⟩ := callSystemFunction_void hcall
  obtain ⟨-, rfl⟩ := runs_pure.mp hstore
  refine ⟨tys, s₁.nextReg + 1 + function.parameterTypes.length + 1 + k, htys, by omega, ?_, ?_⟩
  · rw [stack.runs_uglyHack.mp hhack]
    simp [afterPops]
    omega
  · rw [stack.runs_uglyHack.mp hhack]
    simp [nativeMethodCode, afterPops, popPieces, nullCheck, voidCallCode, contextCheck, Nat.add_assoc,
      Nat.add_comm 1]

/-- A lookup of a callee is a call of the runtime. -/
theorem lookupCode_traced {env : Env} (host : Host) (object : Value) (r : ℕ) (p : Progress) :
    ∃ es p', Traced env host p (lookupCode function object r) es p' ∧ functionCalls es = [] ∧
      writesOf es = [] ∧ (∀ j < r, p'.regs j = p.regs j) ∧ ∀ start n, host.Spares start n →
        ∀ a, start ≤ a → a < start + n → p'.world.mem a = p.world.mem a := by
  rw [lookupCode]
  split
  · refine ⟨_, _, .call _ _ _ p, rfl, rfl, fun j hj => ?_, fun start n hspares a ha ha' => ?_⟩
    · exact Function.update_of_ne (by omega) _ _
    · exact hspares ⟨_, _, p.world.mem⟩ p.world.calls a ha ha'
  · exact ⟨_, _, .nil p, rfl, rfl, fun _ _ => rfl, fun _ _ _ _ _ _ => rfl⟩

/-- **The native call itself** passes its arguments. -/
theorem voidCallCode_traced (env : Env) (host : Host) (target : Operand) (args : List Value)
    (p : Progress) : ∃ es p' mem, Traced env host p (voidCallCode target args) es p' ∧
      functionCalls es = [⟨.system target, args.map (·.eval env p.regs), mem⟩] ∧ writesOf es = [] ∧
      p'.regs = p.regs ∧ ∀ start n, host.Spares start n →
        ∀ a, start ≤ a → a < start + n → p'.world.mem a = p.world.mem a := by
  let prepared := p.call host none (.runtime .prepareSystemCall)
    [(⟨target, .pvoid⟩ : Value).eval env p.regs]
  have hprepared : Traced env host p [.instr (.call none (.runtime .prepareSystemCall)
      [⟨target, .pvoid⟩])] _ prepared := .call none _ _ p
  refine ⟨_, _, prepared.world.mem, hprepared.append (.call none (.system target) args prepared), rfl,
    rfl, rfl, fun start n hspares a ha ha' => ?_⟩
  have hcalled := hspares ⟨.system target, args.map (·.eval env p.regs), prepared.world.mem⟩
    prepared.world.calls a ha ha'
  exact hcalled.trans (hspares ⟨_, _, p.world.mem⟩ p.world.calls a ha ha')

theorem methodArguments_map {α β : Type} (f : α → β) (object : α) (parameters : List α) :
    (methodArguments function object parameters).map f =
      methodArguments function (f object) (parameters.map f) := by
  rw [methodArguments, methodArguments]
  split
  · rw [List.map_append, List.map_singleton]
  · rw [List.map_cons]

/-- **A system call of a method, run** up to the check of the context: it passes the object and the
parameters on the stack. -/
theorem nativeMethodCode_traced {T : Translation} {env : Env} {sp : ℤ} {tys : List Ty}
    {mem : Bytes.Mem} {object : Word} (host : Host) (r : ℕ) (hact : Activates T env)
    (hslot : T.stack.InFrame sp 8)
    (hobject : Bytes.read mem (T.stack.byteAddress env.layout sp) 8 = object) (hne : object ≠ 0)
    (htys : function.parameterTypes.mapM toLlvmType = .ok tys)
    (hframe : ∀ (k : ℕ) type ty, function.parameterTypes[k]? = some type → tys[k]? = some ty →
      T.stack.InFrame (sp - asPtrSize - slotOffset function.parameterTypes k) ty.storeSize)
    (regs : Regs) (calls : List Request) :
    ∃ es p' request, Traced env host ⟨regs, mem, calls⟩
        (nativeMethodCode T.stack function r sp tys) es p' ∧
      functionCalls es = [request] ∧ writesOf es = [] ∧
      (∃ k, request.callee = .system (nativeTarget function k)) ∧
      request.args = methodArguments function object
        (pushedArguments T.stack env.layout mem (sp - asPtrSize) function.parameterTypes) ∧
      (∀ j < r, p'.regs j = regs j) ∧ ∀ start n, host.Spares start n →
        ∀ a, start ≤ a → a < start + n → p'.world.mem a = mem a := by
  have hloaded : Traced env host ⟨regs, mem, calls⟩ _ _ _ := .load_slot .i8 hact hslot regs mem calls r
  rw [hobject] at hloaded
  obtain ⟨regs₁, hpopped, hkept₁, hwords⟩ := popPieces_arguments host (r + 1) hact htys hframe
    ⟨Function.update regs r object, mem, calls⟩
  have hfirst : regs₁ r = object := by
    rw [hkept₁ r (by omega)]
    exact Function.update_self _ _ _
  have hnonnull : (Operand.reg r).eval env regs₁ ≠ 0 := by
    rw [Operand.eval, hfirst]
    exact hne
  obtain ⟨next, hnext⟩ : ∃ next, r + 1 + function.parameterTypes.length = next := ⟨_, rfl⟩
  have hchecked : Traced env host ⟨regs₁, mem, calls⟩ (nullCheck ⟨.reg r, .pvoid⟩ next) [] _ :=
    nullCheck_traced rfl hnonnull
  obtain ⟨es, p₂, hlooked, hcalls, hwrites, hkept₂, hspared⟩ := @lookupCode_traced function env host
    ⟨.reg r, .pvoid⟩ (next + 1) ⟨Function.update regs₁ next 0, mem, calls⟩
  let target := nativeTarget function (next + 1)
  let args := methodArguments function ⟨.reg r, .pvoid⟩ (loadedValues (r + 1) tys)
  obtain ⟨es', p₃, mem₃, hcalled, hcalls', hwrites', hregs₃, hspared'⟩ :=
    voidCallCode_traced env host target args p₂
  have hregs : ∀ j < next, p₂.regs j = regs₁ j := fun j hj =>
    (hkept₂ j (by omega)).trans (Function.update_of_ne (by omega) _ _)
  have hargs : args.map (·.eval env p₂.regs) = methodArguments function object
      (pushedArguments T.stack env.layout mem (sp - asPtrSize) function.parameterTypes) := by
    rw [methodArguments_map, hwords p₂.regs fun k hk => hregs _ (by omega), Value.eval,
      Ty.truncate_ptr, Operand.eval, hregs r (by omega), hfirst]
  have htraced := hloaded.append (hpopped.append (hchecked.append (hlooked.append hcalled)))
  subst hnext
  refine ⟨_, p₃, ⟨.system target, args.map (·.eval env p₂.regs), mem₃⟩, htraced, ?_, ?_, ⟨_, rfl⟩,
    hargs, fun j hj => ?_, fun start n hspares a ha ha' => ?_⟩
  · rw [List.nil_append, List.nil_append, List.nil_append, functionCalls_append, hcalls, hcalls',
      List.nil_append]
  · rw [List.nil_append, List.nil_append, List.nil_append, writesOf_append, hwrites, hwrites',
      List.nil_append]
  · rw [hregs₃, hregs j (by omega), hkept₁ j (by omega)]
    exact Function.update_of_ne (by omega) _ _
  · rw [hspared' start n hspares a ha ha', hspared start n hspares a ha ha']

end Code

end Asllvm
