import Mathlib.Data.List.Chain
import Asllvm.Effects
import Asllvm.ControlFlow

/-!
# What Comes Next After an Instruction

The code of an instruction either ends with a terminator of its own or is followed by the code
of the next one in the text; the branch to the label of that one is added by looking at what the
block ends with. `EndsWith` says which terminator an instruction ends with, and the lemmas below
where control goes from there.

## Main results

* `translateOpcode_endsWith` — the terminators of the instructions.
* `label_filled`, `label_empty` — a label is filled at its own offset, and no other one is.
* `SplitAt.next_iff_of_none`, `SplitAt.next_iff_of_some` — what comes next after an instruction.
* `closersLabelled_preprocess` — every instruction that ends its block is followed by a label.
-/

open StateExcept

namespace Asllvm

/-! ### The terminators -/

/-- The terminator an instruction ends with, if it ends with one. -/
inductive EndsWith (jumps : JumpTables) (ins : BytecodeInstruction) : Option Terminator → Prop
  | ordinary : ins.bc.endsBlock = false → EndsWith jumps ins none
  | ret : ins.bc = .RET → EndsWith jumps ins (some (.ret VmState.Ok.const.op))
  | jump {b : BlockId} :
      ins.bc = .JMP → jumps.jumpMap ins.target = some b → EndsWith jumps ins (some (.br b))
  | conditional {cond : Operand} {b fail : BlockId} :
      ins.bc.isConditionalJump = true → jumps.jumpMap ins.target = some b →
      jumps.jumpMap (ins.offset + 2) = some fail →
      EndsWith jumps ins (some (.condBr cond b fail))
  | table {value : Operand} {default : BlockId} {targets : List BlockId} :
      ins.bc = .JMPP → jumps.switchMap ins.offset = some targets → default ∈ targets →
      EndsWith jumps ins (some (.switch value default targets))

section Terminators

variable {stack : StackFrame} {jumps : JumpTables} {ins : BytecodeInstruction}
  {s s' : EmitState} {t : Option Terminator}

theorem emitConditionalBranch_runs {pred : Pred} {type : Ty} {t : Terminator}
    (h : Runs (emitConditionalBranch jumps ins pred type) s t s') :
    ∃ b fail, jumps.jumpMap ins.target = some b ∧ jumps.jumpMap (ins.offset + 2) = some fail ∧
      t = .condBr (.reg (s.nextReg + 1)) b fail ∧
      s' = s.extend 2 [.instr (.load s.nextReg type (.frame .valueRegister 0)),
        .instr (.icmp (s.nextReg + 1) pred type (.reg s.nextReg) (constantInt type 0).op)] := by
  simp only [emitConditionalBranch, getBranchTarget, getConditionalFailBranchTarget, runs_bind,
    runs_loadValueRegisterValue, runs_createICmp, runs_atOrThrow, runs_pure] at h
  obtain ⟨_, _, ⟨rfl, rfl⟩, _, _, ⟨rfl, rfl⟩, b, _, ⟨hb, rfl⟩, fail, _, ⟨hfail, rfl⟩, rfl, rfl⟩ := h
  exact ⟨b, fail, hb, hfail, rfl, by simp⟩

/-- The test a conditional jump makes of the value register. -/
def Opcode.jumpTest : Opcode → Option (Pred × Ty)
  | .JZ => some (.eq, .i32)
  | .JNZ => some (.ne, .i32)
  | .JS => some (.slt, .i32)
  | .JNS => some (.sge, .i32)
  | .JP => some (.sgt, .i32)
  | .JNP => some (.sle, .i32)
  | .JLowZ => some (.eq, .i8)
  | .JLowNZ => some (.ne, .i8)
  | _ => none

/-- The conditional jumps are the opcodes that make a test. -/
theorem Opcode.isConditionalJump_iff {bc : Opcode} :
    bc.isConditionalJump = true ↔ ∃ test, bc.jumpTest = some test := by
  cases bc <;> simp [isConditionalJump, jumpTest]

theorem translateOpcode_of_jumpTest {pred : Pred} {type : Ty}
    (h : ins.bc.jumpTest = some (pred, type)) : translateOpcode stack jumps ins =
      emitConditionalBranch jumps ins pred type >>= fun t => pure (some t) := by
  rw [translateOpcode]
  cases hbc : ins.bc <;> rw [hbc] at h <;>
    first
    | (simp only [Opcode.jumpTest, Option.some.injEq, Prod.mk.injEq] at h
       obtain ⟨rfl, rfl⟩ := h
       rfl)
    | exact absurd h (by simp [Opcode.jumpTest])

theorem translateRet_eq {t : Terminator} (h : Runs (translateRet stack ins) s t s') :
    t = .ret VmState.Ok.const.op := by
  rw [translateRet] at h
  split at h
  · split at h <;> simp only [runs_bind, runs_pure] at h
    · obtain ⟨_, _, -, _, _, -, _, _, -, _, _, -, rfl, -⟩ := h
      rfl
    · obtain ⟨_, _, -, _, _, -, _, _, -, _, _, -, rfl, -⟩ := h
      rfl
  · simp only [runs_bind, runs_pure] at h
    obtain ⟨_, _, -, rfl, -⟩ := h
    rfl

/-- **The terminators of the instructions.** -/
theorem translateOpcode_endsWith (h : Runs (translateOpcode stack jumps ins) s t s') :
    EndsWith jumps ins t := by
  by_cases hret : ins.bc = .RET
  · simp only [translateOpcode, hret, runs_bind, runs_pure] at h
    obtain ⟨t', _, hret', rfl, -⟩ := h
    rw [translateRet_eq hret']
    exact .ret hret
  by_cases hjmp : ins.bc = .JMP
  · simp only [translateOpcode, hjmp, getBranchTarget, runs_bind, runs_atOrThrow, runs_pure] at h
    obtain ⟨b, _, ⟨hb, rfl⟩, rfl, -⟩ := h
    exact .jump hjmp hb
  by_cases htable : ins.bc = .JMPP
  · simp only [translateOpcode, htable, translateJmpP, runs_bind, runs_atOrThrow,
      runs_asllvmAssert, StackFrame.runs_load, runs_dereference, runs_pure] at h
    obtain ⟨_, _, ⟨targets, _, ⟨htargets, rfl⟩, _, _, -, _, _, ⟨-, rfl, rfl⟩, default, _,
      ⟨hdefault, rfl⟩, rfl, rfl⟩, rfl, -⟩ := h
    exact .table htable htargets (List.mem_of_getLast? hdefault)
  by_cases hcond : ins.bc.isConditionalJump = true
  · obtain ⟨⟨pred, type⟩, htest⟩ := Opcode.isConditionalJump_iff.mp hcond
    rw [translateOpcode_of_jumpTest htest, runs_bind] at h
    obtain ⟨t', _, hbranch, h⟩ := h
    obtain ⟨rfl, -⟩ := runs_pure.mp h
    obtain ⟨b, fail, hb, hfail, rfl, -⟩ := emitConditionalBranch_runs hbranch
    exact .conditional hcond hb hfail
  · have hordinary : ins.bc.endsBlock = false := by
      simp [Opcode.endsBlock, hret, hjmp, htable, hcond]
    rw [translateOpcode_of_ordinary stack jumps ins hordinary, runs_bind] at h
    obtain ⟨_, _, -, h⟩ := h
    obtain ⟨rfl, -⟩ := runs_pure.mp h
    exact .ordinary hordinary

/-- An instruction ends its block iff its opcode does. -/
theorem EndsWith.isSome_iff (h : EndsWith jumps ins t) :
    t.isSome = true ↔ ins.bc.endsBlock = true := by
  cases h with
  | ordinary hbc => simp [hbc]
  | ret hbc => simp [hbc, Opcode.endsBlock]
  | jump hbc _ => simp [hbc, Opcode.endsBlock]
  | conditional hbc _ _ => simp [hbc, Opcode.endsBlock]
  | table hbc _ _ => simp [hbc, Opcode.endsBlock]

end Terminators

/-! ### What comes next -/

/-- Every instruction that ends its block is followed by a label. -/
def ClosersLabelled (jumps : JumpTables) (bytecode : List BytecodeInstruction) : Prop :=
  bytecode.IsChain fun ins next => ins.bc.endsBlock = true → jumps.HasLabel next.offset

section Next

variable {context : FunctionContext} {bytecode pre post : List BytecodeInstruction}
  {ins : BytecodeInstruction} {T : Translation} {stack : StackFrame} {jumps : JumpTables}
  {s s' : EmitState} {t : Option Terminator} {r' : Position} {st st' : BuilderState}

/-- The code of an instruction starts at an open position. -/
theorem InstructionAt.openAt (h : InstructionAt stack jumps F ins s r p t s' q r')
    (hr : OpenAt F r ∨ jumps.HasLabel ins.offset) : OpenAt F p := by
  have henters := h.enters
  cases hlabel : jumps.jumpMap ins.offset with
  | none =>
      rw [hlabel] at henters
      cases henters
      rcases hr with hr | hr
      · exact hr
      · rw [JumpTables.HasLabel, hlabel] at hr
        exact Bool.noConfusion hr
  | some b =>
      rw [hlabel] at henters
      cases henters
      exact .start b

/-- So does its end. -/
theorem InstructionAt.openAt_end (h : InstructionAt stack jumps F ins s r p t s' q r')
    (hr : OpenAt F r ∨ jumps.HasLabel ins.offset) : OpenAt F q :=
  h.code.openAt ((h.openAt hr).next h.marker rfl)

/-- Behind some instructions, the position is open or the next instruction has a label, by
induction on the instructions. -/
theorem LaidOut.openAt_or {z : Position} {u : EmitState}
    (h : LaidOut stack jumps F s r pre u z) (hclosers : ClosersLabelled jumps (pre ++ [ins]))
    (hr : OpenAt F r) : OpenAt F z ∨ jumps.HasLabel ins.offset := by
  have hgen : ∀ first rest, pre ++ [ins] = first :: rest →
      OpenAt F r ∨ jumps.HasLabel first.offset := fun _ _ _ => .inl hr
  clear hr
  induction h with
  | nil => exact hgen ins [] rfl
  | @cons ins₀ rest s s₁ u r p q r₁ z t hhere _ ih =>
      have hq := hhere.openAt_end (hgen ins₀ (rest ++ [ins]) rfl)
      refine ih hclosers.tail fun first rest' hfirst => ?_
      cases hleaves : t with
      | none =>
          have hr₁ := hhere.leaves
          rw [hleaves] at hr₁
          cases hr₁
          exact .inl hq
      | some term =>
          have hends := (translateOpcode_endsWith hhere.runs).isSome_iff.mp (by rw [hleaves]; rfl)
          rw [ClosersLabelled, List.cons_append, hfirst, List.isChain_cons_cons] at hclosers
          exact .inr (hclosers.1 hends)

variable {q : Position}

theorem SplitAt.openAt (h : SplitAt context T pre ins post st st' p t s' q)
    (hclosers : ClosersLabelled T.jumps (pre ++ ins :: post)) :
    OpenAt T.cfg.blocks st.cfg.position ∨ T.jumps.HasLabel ins.offset := by
  obtain ⟨s₀, r₀, s, hcode, hlaid⟩ := h.prologue
  refine hlaid.openAt_or ?_ (hcode.openAt (.start _))
  have hsplit : pre ++ ins :: post = (pre ++ [ins]) ++ post := by simp
  rw [ClosersLabelled, hsplit] at hclosers
  exact hclosers.left_of_append

/-- From an open position, control goes to the start of the instruction that comes next there. -/
theorem Enters.quiet_iff {label : Option BlockId} (h : Enters F r label p) (hopen : OpenAt F r)
    (hp' : AtMarker F p') : Quiet F r p' ↔ Quiet F p p' := by
  cases h with
  | fallthrough => exact Iff.rfl
  | label hbranch =>
      rw [quiet_term_iff (hbranch hopen) hp']
      constructor
      · rintro ⟨b, hb, hq⟩
        rwa [List.mem_singleton.mp hb] at hq
      · exact fun hq => ⟨_, List.mem_singleton_self _, hq⟩

/-- Nothing lies at the end of the function. -/
theorem itemAt_position (cfg : Cfg) : itemAt cfg.blocks cfg.position = none := by
  rw [itemAt, Cfg.position]
  exact List.getElem?_eq_none (Nat.le_refl _)

/-- What is next is decided at the end of the pieces. -/
theorem SplitAt.next_iff (h : SplitAt context T pre ins post st st' p t s' q) :
    NextInstruction T.cfg.blocks p p' ↔ Quiet T.cfg.blocks q p' ∧ AtMarker T.cfg.blocks p' := by
  rw [NextInstruction]
  constructor
  · rintro ⟨hquiet, hp'⟩
    exact ⟨(h.here.code.quiet_iff hp').mp hquiet, hp'⟩
  · rintro ⟨hquiet, hp'⟩
    exact ⟨(h.here.code.quiet_iff hp').mpr hquiet, hp'⟩

/-- **After an instruction without a terminator comes the one that follows it**, through the branch
to its label if it has one. -/
theorem SplitAt.next_iff_of_none {next : BytecodeInstruction} {post : List BytecodeInstruction}
    {st₂ st₂' : BuilderState} {p₂ q₂ : Position} {t₂ : Option Terminator} {s₂ : EmitState}
    (h : SplitAt context T pre ins (next :: post) st st' p none s' q)
    (h' : SplitAt context T (pre ++ [ins]) next post st₂ st₂' p₂ t₂ s₂ q₂)
    (hclosers : ClosersLabelled T.jumps (pre ++ ins :: next :: post)) :
    NextInstruction T.cfg.blocks p p' ↔ p' = p₂ := by
  obtain ⟨-, rfl⟩ := h.scanned'.det h'.scanned
  have hopen := h.here.openAt_end (h.openAt hclosers)
  have hmarker₂ : AtMarker T.cfg.blocks p₂ := ⟨_, h'.here.marker⟩
  have hleaves := h.here.leaves
  have henters := h'.here.enters
  -- the end of the pieces leads to the next start, and nowhere else
  have hquiet : ∀ {p'}, AtMarker T.cfg.blocks p' →
      (Quiet T.cfg.blocks q p' ↔ Quiet T.cfg.blocks p₂ p') := by
    intro p' hp'
    generalize st'.cfg.position = r at hleaves henters
    cases hleaves
    exact henters.quiet_iff hopen hp'
  rw [h.next_iff]
  constructor
  · rintro ⟨hq, hp'⟩
    exact (((hquiet hp').mp hq).eq_of_atMarker hmarker₂).symm
  · rintro rfl
    exact ⟨(hquiet hmarker₂).mpr (.refl _), hmarker₂⟩

/-- After the last instruction, if it has no terminator, there is nothing. -/
theorem SplitAt.not_next_of_last (h : SplitAt context T pre ins [] st st' p none s' q) :
    ¬ NextInstruction T.cfg.blocks p p' := by
  obtain ⟨s₁, hlaid, -⟩ := h.rest
  have hleaves := h.here.leaves
  have hnone : itemAt T.cfg.blocks q = none := by
    generalize hr : st'.cfg.position = r at hlaid hleaves
    cases hleaves
    generalize hz : T.cfg.position = z at hlaid
    cases hlaid
    rw [← hz]
    exact itemAt_position T.cfg
  rw [h.next_iff]
  rintro ⟨hquiet, o, ho⟩
  have hno : ∀ p'', ¬ Flow T.cfg.blocks q p'' := by
    intro p'' hflow
    cases hflow with
    | next hitem _ => simp [hnone] at hitem
    | jump hitem _ => simp [hnone] at hitem
  obtain rfl := hquiet.eq_of_no_flow hno
  simp [hnone] at ho

/-- **After an instruction with a terminator comes what its successors start.** -/
theorem SplitAt.next_iff_of_some {term : Terminator}
    (h : SplitAt context T pre ins post st st' p (some term) s' q) :
    NextInstruction T.cfg.blocks p p' ↔
      ∃ b ∈ term.successors, Quiet T.cfg.blocks (b, 0) p' ∧ AtMarker T.cfg.blocks p' := by
  have hterm : itemAt T.cfg.blocks q = some (.term term) := by
    have hleaves := h.here.leaves
    generalize st'.cfg.position = r at hleaves
    cases hleaves with
    | closed hitem => exact hitem
  rw [h.next_iff]
  constructor
  · rintro ⟨hquiet, hp'⟩
    obtain ⟨b, hb, hq⟩ := (quiet_term_iff hterm hp').mp hquiet
    exact ⟨b, hb, hq, hp'⟩
  · rintro ⟨b, hb, hq, hp'⟩
    exact ⟨(quiet_term_iff hterm hp').mpr ⟨b, hb, hq⟩, hp'⟩

/-- **A label is filled at its own offset.** -/
theorem label_filled (hwalked : Walked bytecode) (h : translateBytecode context bytecode = .ok T)
    (hins : ins ∈ bytecode) (hlabel : T.jumps.HasLabel ins.offset) :
    itemAt T.cfg.blocks (.label ins.offset, 0) = some (.marker ins.offset) := by
  obtain ⟨pre, post, rfl⟩ := List.append_of_mem hins
  obtain ⟨st, st', p, t, s', q, hsplit⟩ := exists_splitAt hwalked h
  have hT : T.jumps = preprocess (pre ++ ins :: post) := (runs_translateBytecode h).1
  have henters := hsplit.here.enters
  rw [hT, preprocess_jumpMap (hT ▸ hlabel)] at henters
  cases henters
  exact hsplit.here.marker

/-- Under a label that is not that of an instruction there is nothing. -/
theorem label_empty (hwalked : Walked bytecode) (h : translateBytecode context bytecode = .ok T)
    {l : ℤ} (hl : ¬ LabelledInstruction T.jumps bytecode l) : T.cfg.blocks (.label l) = [] := by
  obtain ⟨bound, hmarked⟩ := translateBytecode_marked hwalked h
  by_contra hne
  exact hl (hmarked.labels l (.inl hne))

/-- What is reached from a label is the instruction there, if there is one. -/
theorem quiet_label_iff (hwalked : Walked bytecode)
    (h : translateBytecode context bytecode = .ok T) {l : ℤ} :
    Quiet T.cfg.blocks (.label l, 0) p' ∧ AtMarker T.cfg.blocks p' ↔
      LabelledInstruction T.jumps bytecode l ∧ p' = (.label l, 0) := by
  constructor
  · rintro ⟨hquiet, o, ho⟩
    by_cases hl : LabelledInstruction T.jumps bytecode l
    · obtain ⟨ins, hins, rfl, hlabel⟩ := hl
      have hfilled := label_filled hwalked h hins hlabel
      exact ⟨⟨ins, hins, rfl, hlabel⟩, (hquiet.eq_of_atMarker ⟨_, hfilled⟩).symm⟩
    · have hempty := label_empty hwalked h hl
      have hno : ∀ p'', ¬ Flow T.cfg.blocks (.label l, 0) p'' := by
        intro p'' hflow
        cases hflow with
        | next hitem _ => simp [itemAt, hempty] at hitem
        | jump hitem _ => simp [itemAt, hempty] at hitem
      obtain rfl := hquiet.eq_of_no_flow hno
      simp [itemAt, hempty] at ho
  · rintro ⟨⟨ins, hins, rfl, hlabel⟩, rfl⟩
    exact ⟨.refl _, _, label_filled hwalked h hins hlabel⟩

end Next

/-! ### The places of the instructions -/

/-- The instruction `ins` of a translated bytecode has its marker at `p`, and the builder was in
the state `st` before it. -/
def Located (context : FunctionContext) (T : Translation) (bytecode : List BytecodeInstruction)
    (ins : BytecodeInstruction) (st : BuilderState) (p : Position) : Prop :=
  ∃ pre post st' t s' q, bytecode = pre ++ ins :: post ∧
    SplitAt context T pre ins post st st' p t s' q

section Located

variable {context : FunctionContext} {bytecode : List BytecodeInstruction}
  {ins ins' : BytecodeInstruction} {T : Translation} {st st' : BuilderState} {p p' : Position}

theorem exists_located (hwalked : Walked bytecode) (h : translateBytecode context bytecode = .ok T)
    (hins : ins ∈ bytecode) : ∃ st p, Located context T bytecode ins st p := by
  obtain ⟨pre, post, rfl⟩ := List.append_of_mem hins
  obtain ⟨st, st', p, t, s', q, hsplit⟩ := exists_splitAt hwalked h
  exact ⟨st, p, pre, post, st', t, s', q, rfl, hsplit⟩

/-- The next instruction in the text has a place too. -/
theorem exists_splitAt_next {pre post : List BytecodeInstruction}
    (hwalked : Walked (pre ++ ins :: ins' :: post))
    (h : translateBytecode context (pre ++ ins :: ins' :: post) = .ok T) :
    ∃ st st' p t s' q, SplitAt context T (pre ++ [ins]) ins' post st st' p t s' q ∧
      Located context T (pre ++ ins :: ins' :: post) ins' st p := by
  have happend : pre ++ ins :: ins' :: post = (pre ++ [ins]) ++ ins' :: post := by simp
  rw [happend] at hwalked h ⊢
  obtain ⟨st, st', p, t, s', q, hsplit⟩ := exists_splitAt hwalked h
  exact ⟨st, st', p, t, s', q, hsplit, pre ++ [ins], post, st', t, s', q, rfl, hsplit⟩

theorem Located.mem (h : Located context T bytecode ins st p) : ins ∈ bytecode := by
  obtain ⟨pre, post, _, _, _, _, rfl, -⟩ := h
  simp

theorem Located.marker (h : Located context T bytecode ins st p) :
    itemAt T.cfg.blocks p = some (.marker ins.offset) := by
  obtain ⟨_, _, _, _, _, _, -, hsplit⟩ := h
  exact hsplit.here.marker

/-- **An offset has one place**. -/
theorem Located.det (hwalked : Walked bytecode) (htranslate : translateBytecode context bytecode = .ok T)
    (h : Located context T bytecode ins st p) (h' : Located context T bytecode ins' st' p')
    (ho : ins.offset = ins'.offset) : ins = ins' ∧ st = st' ∧ p = p' := by
  obtain ⟨bound, hmarked⟩ := translateBytecode_marked hwalked htranslate
  have hp : p = p' := hmarked.unique p p' ins.offset h.marker (ho ▸ h'.marker)
  obtain ⟨pre, post, _, _, _, _, rfl, hsplit⟩ := h
  obtain ⟨pre', post', _, _, _, _, heq, hsplit'⟩ := h'
  obtain ⟨rfl, rfl, -⟩ := hwalked.split_unique heq ho
  exact ⟨rfl, (hsplit.scanned.det hsplit'.scanned).2, hp⟩

/-- Every marker is that of an instruction. -/
theorem exists_located_of_marker {o : ℕ} (hwalked : Walked bytecode)
    (h : translateBytecode context bytecode = .ok T)
    (hp : itemAt T.cfg.blocks p = some (.marker o)) :
    ∃ ins st, Located context T bytecode ins st p ∧ ins.offset = o := by
  obtain ⟨bound, hmarked⟩ := translateBytecode_marked hwalked h
  obtain ⟨-, ins, hins, rfl⟩ := hmarked.known p o hp
  obtain ⟨st, p', hlocated⟩ := exists_located hwalked h hins
  obtain rfl := hmarked.unique p p' ins.offset hp hlocated.marker
  exact ⟨ins, st, hlocated, rfl⟩

/-- **Control enters the function at its first instruction.** -/
theorem quiet_entry_iff {first : BytecodeInstruction} {rest : List BytecodeInstruction}
    (hwalked : Walked (first :: rest)) (h : Located context T (first :: rest) first st p) :
    Quiet T.cfg.blocks (.entry, 0) p' ∧ AtMarker T.cfg.blocks p' ↔ p' = p := by
  obtain ⟨pre, post, st', t, s', q, heq, hsplit⟩ := h
  obtain ⟨rfl, -, -⟩ := @WalkedFrom.split_unique 0 [] pre rest post first first hwalked heq rfl
  have hmarker : AtMarker T.cfg.blocks p := ⟨_, hsplit.here.marker⟩
  obtain ⟨s₀, r₀, s, hcode, hlaid⟩ := hsplit.prologue
  have henters := hsplit.here.enters
  have hquiet : ∀ {p'}, AtMarker T.cfg.blocks p' →
      (Quiet T.cfg.blocks (.entry, 0) p' ↔ Quiet T.cfg.blocks p p') := by
    intro p' hp'
    generalize st.cfg.position = r at hlaid henters
    cases hlaid
    rw [hcode.quiet_iff hp']
    exact henters.quiet_iff (hcode.openAt (.start _)) hp'
  constructor
  · rintro ⟨hq, hp'⟩
    exact (((hquiet hp').mp hq).eq_of_atMarker hmarker).symm
  · rintro rfl
    exact ⟨(hquiet hmarker).mpr (.refl _), hmarker⟩

end Located

/-! ### Labels where control goes -/

section Labels

variable {context : FunctionContext} {bytecode pre post : List BytecodeInstruction}
  {ins : BytecodeInstruction} {T : Translation} {t : Terminator}

/-- Control leaves an instruction for labels only. -/
theorem EndsWith.exists_label (h : EndsWith (preprocess bytecode) ins (some t)) {b : BlockId}
    (hb : b ∈ t.successors) : ∃ l, b = .label l := by
  have hlabelled := preprocess_labelled bytecode
  cases h with
  | ret _ => exact absurd hb List.not_mem_nil
  | jump _ hmap => exact ⟨_, (List.mem_singleton.mp hb).trans (hlabelled _ _ hmap)⟩
  | conditional _ hmap hfail =>
      rcases List.mem_pair.mp hb with rfl | rfl
      · exact ⟨_, hlabelled _ _ hmap⟩
      · exact ⟨_, hlabelled _ _ hfail⟩
  | table _ hmap hdefault =>
      have htables := preprocess_tables bytecode _ _ hmap
      rcases List.mem_cons.mp hb with rfl | hb
      · exact htables _ hdefault
      · exact htables _ hb

/-- **Every instruction that ends its block is followed by a label**, if the `RET`s and `JMP`s
are: a conditional jump goes on at a label, and a jump table starts with one. -/
theorem closersLabelled_preprocess (hwalked : Walked bytecode)
    (h : translateBytecode context bytecode = .ok T)
    (hclosed : bytecode.IsChain fun ins next =>
      ins.bc = .RET ∨ ins.bc = .JMP → (preprocess bytecode).HasLabel next.offset) :
    ClosersLabelled T.jumps bytecode := by
  have hT : T.jumps = preprocess bytecode := (runs_translateBytecode h).1
  rw [ClosersLabelled, List.isChain_iff_forall_rel_of_append_cons_cons]
  rintro ins next pre post rfl hends
  have hchain := List.isChain_iff_forall_rel_of_append_cons_cons.mp hclosed rfl
  obtain ⟨-, hnext⟩ := (List.forall_mem_cons.mp hwalked.lt_offset.2)
  have hins : ins ∈ pre ++ ins :: next :: post := by simp
  rw [hT]
  rcases Bool.or_eq_true_iff.mp hends with hends | hcond
  · rcases Bool.or_eq_true_iff.mp hends with hends | htable
    · refine hchain ?_
      simpa using hends
    · -- the code of a `JMPP` needs its jump table
      obtain ⟨st, st', p, t, s', q, hsplit⟩ := exists_splitAt hwalked h
      have hjmpp : ins.bc = .JMPP := by simpa using htable
      have hentry : next.bc = .JMP := by
        have hend := translateOpcode_endsWith hsplit.here.runs
        have hmap : (preprocess (pre ++ ins :: next :: post)).switchMap ins.offset ≠ none := by
          cases hend with
          | table _ hmap _ =>
              rw [← hT, hmap]
              exact Option.some_ne_none _
          | _ => simp_all [Opcode.endsBlock, Opcode.isConditionalJump]
        obtain ⟨entry, rest, hpost, hentry⟩ := exists_entry_of_switchMap hjmpp
          (fun x hx => (hwalked.lt_offset.1 x hx).ne) (fun x hx => (hwalked.lt_offset.2 x hx).ne') hmap
        rwa [← (List.cons.inj hpost).1] at hentry
      exact JumpTableEntry.hasLabel ⟨pre, ins, [], post, rfl, hjmpp, by simp, hentry⟩
  · have hoffset : (next.offset : ℤ) = ins.offset + 2 := by
      rw [hwalked.next_offset, BytecodeInstruction.next, ins.info.jump_size (.inr hcond)]
      rfl
    rw [hoffset]
    refine preprocess_hasLabel_of_mem hins ?_
    rw [BytecodeInstruction.branchTargets_of_conditional hcond]
    exact List.mem_cons_self

end Labels

end Asllvm
