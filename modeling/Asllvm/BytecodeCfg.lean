import Asllvm.Blocks
import Asllvm.Exec

/-!
# The Emitted Graph Is That of the Bytecode

For a well-formed bytecode the function that `translate_bytecode` builds has closed blocks, its
labels are filled at their own offsets, and control gets from the code of one instruction exactly to
the code of those the bytecode names: the next one, the target of a jump, or both; and a conditional
jump chooses between the two as the bytecode does, by the value register.

## Main results

* `closed_of_hasBlock` — every block of the function ends in its one terminator.
* `Located.next_iff` — the successors of an instruction.
* `Located.steps_conditional` — the way a conditional jump takes.
* `translateBytecode_mirrors` — all of it together.
-/

open StateExcept

namespace Asllvm

/-! ### Bytecode control flow -/

/-- Some branch goes to the offset, or a conditional one goes on there. -/
def BranchTarget (bytecode : List BytecodeInstruction) (o : ℤ) : Prop :=
  ∃ ins ∈ bytecode, o ∈ ins.branchTargets

/-- **A well-formed bytecode**: branches go to instructions, what ends a block is followed by a
branch target, a jump of a jump table or the end, and the last instruction is a `RET` or a `JMP`. -/
structure WellFormedBytecode (bytecode : List BytecodeInstruction) : Prop where
  walked : Walked bytecode
  targets : ∀ ins ∈ bytecode, ins.bc = .JMP ∨ ins.bc.isConditionalJump = true →
    ∃ ins' ∈ bytecode, (ins'.offset : ℤ) = ins.target
  closed : bytecode.IsChain fun ins next => ins.bc = .JMP ∨ ins.bc = .JMPP ∨ ins.bc = .RET →
    BranchTarget bytecode next.offset ∨ JumpTableEntry bytecode next
  last : ∃ last ∈ bytecode.getLast?, last.bc = .RET ∨ last.bc = .JMP

/-- The offsets where an instruction other than a `JMPP` goes on. -/
def BytecodeInstruction.successors (ins : BytecodeInstruction) : List ℤ :=
  if ins.bc = .RET then []
  else if ins.bc = .JMP then [ins.target]
  else if ins.bc.isConditionalJump then [ins.target, ins.offset + 2]
  else [(ins.next : ℤ)]

/-- Whether a conditional jump is taken, by the content of the value register. -/
def Opcode.taken (bc : Opcode) (v : Word) : Bool :=
  match bc with
  | .JZ => v.setWidth 32 == 0#32
  | .JNZ => v.setWidth 32 != 0#32
  | .JS => (v.setWidth 32).toInt < 0
  | .JNS => 0 ≤ (v.setWidth 32).toInt
  | .JP => 0 < (v.setWidth 32).toInt
  | .JNP => (v.setWidth 32).toInt ≤ 0
  | .JLowZ => v.setWidth 8 == 0#8
  | .JLowNZ => v.setWidth 8 != 0#8
  | _ => false

/-- The test a conditional jump makes decides as the bytecode does. -/
theorem Opcode.taken_eq {bc : Opcode} {pred : Pred} {type : Ty}
    (h : bc.jumpTest = some (pred, type)) (v : Word) :
    bc.taken v = pred.holds (v.setWidth type.bits) 0 := by
  cases bc <;> simp only [jumpTest, Option.some.injEq, Prod.mk.injEq, reduceCtorEq] at h
  all_goals obtain ⟨rfl, rfl⟩ := h
  case JZ | JNZ | JLowZ | JLowNZ => rfl
  all_goals simp [taken, Pred.holds, Ty.bits, BitVec.slt, BitVec.sle]

section Bytecode

variable {bytecode : List BytecodeInstruction} {ins : BytecodeInstruction}

/-- An instruction that does not end well is not the last one. -/
theorem WellFormedBytecode.exists_next {pre post : List BytecodeInstruction}
    (h : WellFormedBytecode (pre ++ ins :: post)) (hret : ins.bc ≠ .RET) (hjmp : ins.bc ≠ .JMP) :
    ∃ next rest, post = next :: rest := by
  cases post with
  | nil =>
      obtain ⟨last, hlast, hends⟩ := h.last
      obtain rfl : ins = last := by simpa using hlast
      rcases hends with hends | hends
      · exact absurd hends hret
      · exact absurd hends hjmp
  | cons next rest => exact ⟨next, rest, rfl⟩

/-- **Every label is that of an instruction.** -/
theorem WellFormedBytecode.labelledInstruction (h : WellFormedBytecode bytecode) {l : ℤ}
    (hl : (preprocess bytecode).HasLabel l) :
    LabelledInstruction (preprocess bytecode) bytecode l := by
  obtain ⟨ins, hins, hbranch | ⟨-, rfl⟩⟩ := preprocess_hasLabel hl
  · rw [BytecodeInstruction.branchTargets] at hbranch
    by_cases hjmp : ins.bc = .JMP
    · rw [if_pos hjmp] at hbranch
      obtain ⟨ins', hins', ho⟩ := h.targets ins hins (.inl hjmp)
      exact ⟨ins', hins', ho.trans (List.mem_singleton.mp hbranch).symm, hl⟩
    · rw [if_neg hjmp] at hbranch
      by_cases hcond : ins.bc.isConditionalJump = true
      · rw [if_pos hcond] at hbranch
        rcases List.mem_pair.mp hbranch with rfl | rfl
        · -- a conditional jump goes on at the instruction after it
          obtain ⟨pre, post, rfl⟩ := List.append_of_mem hins
          have hret : ins.bc ≠ .RET := by
            intro hret
            rw [hret] at hcond
            exact absurd hcond Bool.false_ne_true
          obtain ⟨next, rest, rfl⟩ := h.exists_next hret hjmp
          refine ⟨next, by simp, ?_, hl⟩
          rw [h.walked.next_offset, BytecodeInstruction.next, ins.info.jump_size (.inr hcond)]
          rfl
        · obtain ⟨ins', hins', ho⟩ := h.targets ins hins (.inr hcond)
          exact ⟨ins', hins', ho, hl⟩
      · rw [if_neg hcond] at hbranch
        exact absurd hbranch List.not_mem_nil
  · exact ⟨ins, hins, rfl, hl⟩

/-- What follows a `RET` or a `JMP` has a label. -/
theorem WellFormedBytecode.closed_hasLabel (h : WellFormedBytecode bytecode) :
    bytecode.IsChain fun ins next =>
      ins.bc = .RET ∨ ins.bc = .JMP → (preprocess bytecode).HasLabel next.offset := by
  refine h.closed.imp fun ins next hclosed hends => ?_
  rcases hclosed (hends.elim (fun hret => .inr (.inr hret)) .inl) with ⟨ins', hins', ho⟩ | hentry
  · exact preprocess_hasLabel_of_mem hins' ho
  · exact hentry.hasLabel

end Bytecode

/-! ### Blocks -/

section Blocks

variable {context : FunctionContext} {bytecode : List BytecodeInstruction} {T : Translation}

/-- The blocks of a translated function: its entry, its labels and those of its checks. -/
def Translation.HasBlock (T : Translation) (b : BlockId) : Prop :=
  T.cfg.Created b ∨ ∃ l, b = .label l ∧ T.jumps.HasLabel l

/-- **Every block of the function ends in its one terminator**, and there is nothing elsewhere. -/
theorem closed_of_hasBlock (hbytecode : WellFormedBytecode bytecode)
    (h : translateBytecode context bytecode = .ok T) (b : BlockId) :
    (T.HasBlock b → ClosedBlock (T.cfg.blocks b)) ∧ (¬ T.HasBlock b → T.cfg.blocks b = []) := by
  have hclosers := closersLabelled_preprocess hbytecode.walked h hbytecode.closed_hasLabel
  obtain ⟨hT, s₀, st₁, hlocal, hscan, hcfg, -, -⟩ := runs_translateBytecode h
  have hjumps : T.jumps.Labelled := hT ▸ preprocess_labelled _
  obtain ⟨hfresh₀, hlabels₀⟩ := Cfg.foldl_place_fresh s₀.out Cfg.new_fresh Cfg.new_labelsFresh
  obtain ⟨hformed₀, hopen₀⟩ := Cfg.foldl_place_formed s₀.out Cfg.new_formed Cfg.new_fresh .nil
  obtain ⟨hformed, hlast⟩ := forM_translateInstruction_formed bytecode hjumps hbytecode.walked
    hclosers hscan hfresh₀ hlabels₀ hformed₀ (.inl hopen₀)
  have hwalked : Walked (bytecode ++ []) := by
    rw [List.append_nil]
    exact hbytecode.walked
  obtain ⟨-, hfresh, -, -, -⟩ := ScannedTo.marked hjumps hwalked ⟨s₀, hlocal, hscan⟩
  rw [← hcfg] at hformed hlast hfresh
  have hclosed : T.cfg.Closed := by
    obtain ⟨last, hmem, hends⟩ := hbytecode.last
    refine hlast last hmem ?_
    rcases hends with hends | hends <;> rw [hends] <;> rfl
  constructor
  · intro hb
    by_cases hinsert : b = T.cfg.insertBlock
    · rw [hinsert]
      exact hclosed
    · have hne : T.cfg.blocks b ≠ [] := by
        rcases hb with hcreated | ⟨l, rfl, hl⟩
        · exact (hformed.created b hcreated).resolve_right (Ne.symm hinsert)
        · obtain ⟨ins, hins, rfl, hlabel⟩ := hbytecode.labelledInstruction (hT ▸ hl)
          have hfilled := label_filled hbytecode.walked h hins (hT ▸ hlabel)
          intro hnil
          rw [itemAt, hnil] at hfilled
          exact absurd hfilled (by simp)
      exact (hformed.elsewhere b hinsert).resolve_left hne
  · intro hb
    cases b with
    | entry => exact absurd (.inl trivial) hb
    | label l =>
        refine label_empty hbytecode.walked h fun hl => hb (.inr ⟨l, rfl, ?_⟩)
        obtain ⟨-, -, -, hlabel⟩ := hl
        exact hlabel
    | setVmException n => exact hfresh.setVmException n (Nat.le_of_not_lt fun hlt => hb (.inl hlt))
    | doNotSetVmException n =>
        exact hfresh.doNotSetVmException n (Nat.le_of_not_lt fun hlt => hb (.inl hlt))

end Blocks

/-! ### Successors -/

section Successors

variable {context : FunctionContext} {bytecode : List BytecodeInstruction}
  {ins : BytecodeInstruction} {T : Translation} {st : BuilderState} {p p' : Position}

/-- An instruction at the offset `o` starts at the position. -/
def StartsAt (T : Translation) (bytecode : List BytecodeInstruction) (o : ℤ) (p : Position) : Prop :=
  ∃ ins ∈ bytecode, (ins.offset : ℤ) = o ∧ itemAt T.cfg.blocks p = some (.marker ins.offset)

/-- From a label, control comes to the instruction there. -/
theorem quiet_label_iff_startsAt (hwalked : Walked bytecode)
    (h : translateBytecode context bytecode = .ok T) {l : ℤ} (hl : T.jumps.HasLabel l) :
    Quiet T.cfg.blocks (.label l, 0) p' ∧ AtMarker T.cfg.blocks p' ↔
      StartsAt T bytecode l p' := by
  rw [quiet_label_iff hwalked h]
  constructor
  · rintro ⟨⟨ins, hins, rfl, hlabel⟩, rfl⟩
    exact ⟨ins, hins, rfl, label_filled hwalked h hins hlabel⟩
  · rintro ⟨ins, hins, rfl, hitem⟩
    obtain ⟨bound, hmarked⟩ := translateBytecode_marked hwalked h
    exact ⟨⟨ins, hins, rfl, hl⟩, hmarked.unique _ _ _ hitem (label_filled hwalked h hins hl)⟩

/-- **The successors of an instruction in the function are those in the bytecode.** -/
theorem Located.next_iff (hbytecode : WellFormedBytecode bytecode)
    (h : translateBytecode context bytecode = .ok T) (hat : Located context T bytecode ins st p)
    (hjmpp : ins.bc ≠ .JMPP) : NextInstruction T.cfg.blocks p p' ↔
      ∃ o ∈ ins.successors, StartsAt T bytecode o p' := by
  have hwalked := hbytecode.walked
  have hclosers := closersLabelled_preprocess hwalked h hbytecode.closed_hasLabel
  obtain ⟨pre, post, st', t, s', q, rfl, hsplit⟩ := hat
  have hends := translateOpcode_endsWith hsplit.here.runs
  rw [BytecodeInstruction.successors]
  cases t with
  | none =>
      have hordinary : ins.bc.endsBlock = false := by
        cases hends with
        | ordinary hbc => exact hbc
      have hret : ins.bc ≠ .RET := fun hbc => by rw [hbc] at hordinary; exact absurd hordinary (by decide)
      have hjmp : ins.bc ≠ .JMP := fun hbc => by rw [hbc] at hordinary; exact absurd hordinary (by decide)
      have hcond : ¬ ins.bc.isConditionalJump = true := fun hbc => by
        simp [Opcode.endsBlock, hbc] at hordinary
      obtain ⟨next, rest, rfl⟩ := hbytecode.exists_next hret hjmp
      obtain ⟨st₂, st₃, p₂, t₂, s₂, q₂, hsplit₂, hat₂⟩ := exists_splitAt_next hwalked h
      rw [hsplit.next_iff_of_none hsplit₂ hclosers, if_neg hret, if_neg hjmp, if_neg hcond]
      have hnext := hwalked.next_offset
      constructor
      · rintro rfl
        exact ⟨ins.next, List.mem_singleton_self _, next, hat₂.mem, congrArg _ hnext, hat₂.marker⟩
      · rintro ⟨o, ho, ins', hins', ho', hitem⟩
        obtain ⟨bound, hmarked⟩ := translateBytecode_marked hwalked h
        rw [List.mem_singleton.mp ho, ← hnext] at ho'
        have heq : ins'.offset = next.offset := by exact_mod_cast ho'
        exact hmarked.unique _ _ _ hitem (heq ▸ hat₂.marker)
  | some term =>
      have hlabelled : T.jumps.Labelled := (runs_translateBytecode h).1 ▸ preprocess_labelled _
      have hiff : ∀ {l : ℤ} {b : BlockId}, T.jumps.jumpMap l = some b →
          (Quiet T.cfg.blocks (b, 0) p' ∧ AtMarker T.cfg.blocks p' ↔
            StartsAt T (pre ++ ins :: post) l p') := by
        intro l b hmap
        rw [hlabelled l b hmap]
        exact quiet_label_iff_startsAt hwalked h (by rw [JumpTables.HasLabel, hmap]; rfl)
      rw [hsplit.next_iff_of_some]
      cases hends with
      | ret hbc => simp [hbc, Terminator.successors]
      | jump hbc hmap => simp [hbc, Terminator.successors, hiff hmap]
      | conditional hbc hmap hfail =>
          have hret : ins.bc ≠ .RET := fun hret => by rw [hret] at hbc; exact absurd hbc (by decide)
          have hjmp : ins.bc ≠ .JMP := fun hjmp => by rw [hjmp] at hbc; exact absurd hbc (by decide)
          simp [hret, hjmp, hbc, Terminator.successors, hiff hmap, hiff hfail]
      | table hbc _ _ => exact absurd hbc hjmpp

/-- A dword or byte of the value register is the low part of its content. -/
theorem truncate_read {ty : Ty} (hbits : ty.bits = 8 * ty.storeSize) (hsize : ty.storeSize ≤ 8)
    (mem : Bytes.Mem) (a : ℕ) : (ty.truncate (Bytes.read mem a ty.storeSize)).setWidth ty.bits =
      (Bytes.read mem a 8).setWidth ty.bits := by
  have hread : ((Bytes.read mem a 8 >>> (8 * 0)).setWidth (8 * ty.storeSize)).setWidth 64 =
      Bytes.read mem (a + 0) ty.storeSize := Bytes.setWidth_shift_read (by omega) (Nat.le_refl 8)
  rw [Nat.add_zero] at hread
  have h64 : ty.bits ≤ 64 := by omega
  rw [← hread, Ty.truncate]
  apply BitVec.eq_of_getLsbD_eq
  intro i hi
  simp [hi, show i < 64 by omega, show i < 8 * ty.storeSize by omega]

/-- **A conditional jump chooses as the bytecode does**: four steps after the start of its code
control is at the label of its target, if it is taken, and else at that of the instruction after it. -/
theorem Located.steps_conditional (h : translateBytecode context bytecode = .ok T)
    (hat : Located context T bytecode ins st p) (hcond : ins.bc.isConditionalJump = true)
    {env : Env} (henv : env.blocks = T.cfg.blocks) (hsize : 8 ≤ env.layout.size .valueRegister)
    {s : LocalState} (hs : s.position = p) :
    ∃ s', s.steps env 4 = some s' ∧ s'.mem = s.mem ∧ s'.position =
      (.label (if ins.bc.taken (Bytes.read s.mem (env.layout.address .valueRegister) 8) = true
        then ins.target else ins.offset + 2), 0) := by
  have hlabelled : T.jumps.Labelled := (runs_translateBytecode h).1 ▸ preprocess_labelled _
  obtain ⟨pre, post, st', t, s₁, q, rfl, hsplit⟩ := hat
  obtain ⟨⟨pred, type⟩, htest⟩ := Opcode.isConditionalJump_iff.mp hcond
  have hruns := hsplit.here.runs
  rw [translateOpcode_of_jumpTest htest, runs_bind] at hruns
  obtain ⟨term, _, hbranch, hruns⟩ := hruns
  obtain ⟨rfl, rfl⟩ := runs_pure.mp hruns
  obtain ⟨b, fail, hb, hfail, rfl, rfl⟩ := emitConditionalBranch_runs hbranch
  obtain rfl := hlabelled _ _ hb
  obtain rfl := hlabelled _ _ hfail
  -- the code: a load of the register, a comparison and the branch
  have hmarker := hsplit.here.marker
  have hcode := hsplit.here.code
  have hleaves := hsplit.here.leaves
  have hterm : itemAt T.cfg.blocks q = some (.term (.condBr (.reg (st.emit.nextReg + 1))
      (.label ins.target) (.label (ins.offset + 2)))) := by
    generalize st'.cfg.position = r at hleaves
    cases hleaves with
    | closed hitem => exact hitem
  rw [EmitState.extend_out, List.nil_append] at hcode
  obtain ⟨hload, hcmp, hq⟩ : itemAt T.cfg.blocks p.next = _ ∧ itemAt T.cfg.blocks p.next.next = _ ∧
      q = p.next.next.next := by
    cases hcode with
    | instr hload hcode =>
        cases hcode with
        | instr hcmp hcode =>
            cases hcode
            exact ⟨hload, hcmp, rfl⟩
  subst hs
  rw [← henv] at hmarker hload hcmp hterm
  rw [hq] at hterm
  have hwidth : type.bits = 8 * type.storeSize ∧ type.storeSize ≤ 8 := by
    revert htest
    cases ins.bc <;> simp [Opcode.jumpTest] <;> rintro rfl rfl <;> decide
  have haccess : env.accessible (.frame .valueRegister 0) type.storeSize = true := by
    simp only [Env.accessible, decide_eq_true_eq]
    omega
  have haddr : ((Operand.frame .valueRegister 0).eval env s.regs).toNat =
      env.layout.address .valueRegister := by
    rw [Operand.eval_frame (Int.le_refl 0) (by omega)]
    rfl
  -- the four steps
  obtain ⟨regs₁, hexec₁, hreg₁⟩ : ∃ regs₁,
      (Instr.load st.emit.nextReg type (.frame .valueRegister 0)).exec env s.regs s.mem =
        some (regs₁, s.mem) ∧ regs₁ st.emit.nextReg = type.truncate
          (Bytes.read s.mem (env.layout.address .valueRegister) type.storeSize) :=
    ⟨_, by rw [Instr.exec, if_pos haccess, haddr], Function.update_self _ _ _⟩
  obtain ⟨regs₂, hexec₂, hreg₂⟩ : ∃ regs₂,
      (Instr.icmp (st.emit.nextReg + 1) pred type (.reg st.emit.nextReg)
        (constantInt type 0).op).exec env regs₁ s.mem = some (regs₂, s.mem) ∧
      regs₂ (st.emit.nextReg + 1) = ofBool
        (ins.bc.taken (Bytes.read s.mem (env.layout.address .valueRegister) 8)) := by
    refine ⟨_, rfl, (Function.update_self _ _ _).trans ?_⟩
    rw [Opcode.taken_eq htest, ← truncate_read hwidth.1 hwidth.2, ← hreg₁]
    simp [Operand.eval, constantInt]
  have hgoto : (Terminator.condBr (.reg (st.emit.nextReg + 1)) (.label ins.target)
      (.label (ins.offset + 2))).goto env regs₂ = some (.label
        (if ins.bc.taken (Bytes.read s.mem (env.layout.address .valueRegister) 8) = true
          then ins.target else ins.offset + 2)) := by
    rw [Terminator.goto, Operand.eval, hreg₂]
    cases ins.bc.taken _ <;> rfl
  have hstep₁ := LocalState.step_marker hmarker
  have hstep₂ := @LocalState.step_instr env
    { s with position := s.position.next, current := some ins.offset } _ _ _ hload hexec₁
  have hstep₃ := @LocalState.step_instr env
    ⟨s.position.next.next, regs₁, s.mem, some ins.offset⟩ _ _ _ hcmp hexec₂
  have hstep₄ := @LocalState.step_branch env
    ⟨s.position.next.next.next, regs₂, s.mem, some ins.offset⟩ _ _ hterm hgoto
  refine ⟨⟨(.label (if ins.bc.taken (Bytes.read s.mem (env.layout.address .valueRegister) 8) = true
    then ins.target else ins.offset + 2), 0), regs₂, s.mem, some ins.offset⟩, ?_, rfl, rfl⟩
  rw [LocalState.steps_succ hstep₁, LocalState.steps_succ hstep₂, LocalState.steps_succ hstep₃,
    LocalState.steps_succ hstep₄]
  rfl

/-- **The function built from a bytecode has the control flow of the bytecode.** -/
structure MirrorsBytecode (bytecode : List BytecodeInstruction) (T : Translation) : Prop where
  /-- Every block ends in its one terminator, and what is not a block of the function is empty. -/
  blocks : ∀ b, (T.HasBlock b → ClosedBlock (T.cfg.blocks b)) ∧
    (¬ T.HasBlock b → T.cfg.blocks b = [])
  /-- Every label is filled at its own offset. -/
  labels : ∀ l, T.jumps.HasLabel l → StartsAt T bytecode l (.label l, 0)
  /-- The code of every instruction is there once. -/
  codes : ∀ ins ∈ bytecode, ∃ p, itemAt T.cfg.blocks p = some (.marker ins.offset) ∧
    ∀ p', itemAt T.cfg.blocks p' = some (.marker ins.offset) → p' = p
  /-- Control enters the function at its first instruction. -/
  entry : ∀ p', Quiet T.cfg.blocks (.entry, 0) p' ∧ AtMarker T.cfg.blocks p' ↔
    StartsAt T bytecode 0 p'
  /-- The instructions that may come next are the successors in the bytecode. -/
  next : ∀ ins ∈ bytecode, ins.bc ≠ .JMPP → ∀ p,
    itemAt T.cfg.blocks p = some (.marker ins.offset) → ∀ p',
      (NextInstruction T.cfg.blocks p p' ↔ ∃ o ∈ ins.successors, StartsAt T bytecode o p')
  /-- A conditional jump chooses by the value register as the bytecode does. -/
  branch : ∀ ins ∈ bytecode, ins.bc.isConditionalJump = true → ∀ (env : Env) (s : LocalState),
    env.blocks = T.cfg.blocks → 8 ≤ env.layout.size .valueRegister →
    itemAt T.cfg.blocks s.position = some (.marker ins.offset) →
    ∃ s', s.steps env 4 = some s' ∧ s'.mem = s.mem ∧ StartsAt T bytecode
      (if ins.bc.taken (Bytes.read s.mem (env.layout.address .valueRegister) 8) = true
        then ins.target else ins.offset + 2) s'.position

/-- **A translation mirrors its bytecode**, for every well-formed bytecode. -/
theorem translateBytecode_mirrors (hbytecode : WellFormedBytecode bytecode)
    (h : translateBytecode context bytecode = .ok T) : MirrorsBytecode bytecode T := by
  have hwalked := hbytecode.walked
  have hT : T.jumps = preprocess bytecode := (runs_translateBytecode h).1
  obtain ⟨bound, hmarked⟩ := translateBytecode_marked hwalked h
  have hlabels : ∀ l, T.jumps.HasLabel l → StartsAt T bytecode l (.label l, 0) := by
    intro l hl
    obtain ⟨ins, hins, rfl, -⟩ := hbytecode.labelledInstruction (hT ▸ hl)
    exact ⟨ins, hins, rfl, label_filled hwalked h hins hl⟩
  refine ⟨closed_of_hasBlock hbytecode h, hlabels, ?_, ?_, ?_, ?_⟩
  · intro ins hins
    obtain ⟨st, p, hat⟩ := exists_located hwalked h hins
    exact ⟨p, hat.marker, fun p' hp' => hmarked.unique _ _ _ hp' hat.marker⟩
  · intro p'
    cases bytecode with
    | nil =>
        obtain ⟨last, hlast, -⟩ := hbytecode.last
        exact absurd hlast (by simp)
    | cons first rest =>
        obtain ⟨st, p, hat⟩ := exists_located hwalked h List.mem_cons_self
        have hfirst : first.offset = 0 := hwalked.1
        rw [quiet_entry_iff hwalked hat]
        constructor
        · rintro rfl
          exact ⟨first, List.mem_cons_self, congrArg _ hfirst, hat.marker⟩
        · rintro ⟨ins, -, ho, hitem⟩
          have heq : ins.offset = first.offset := by omega
          exact hmarked.unique _ _ _ hitem (heq ▸ hat.marker)
  · intro ins hins hjmpp p hp p'
    obtain ⟨st, p₁, hat⟩ := exists_located hwalked h hins
    obtain rfl := hmarked.unique _ _ _ hp hat.marker
    exact hat.next_iff hbytecode h hjmpp
  · intro ins hins hcond env s henv hsize hp
    obtain ⟨st, p₁, hat⟩ := exists_located hwalked h hins
    obtain rfl := hmarked.unique _ _ _ hp hat.marker
    obtain ⟨s', hsteps, hmem, hposition⟩ := hat.steps_conditional h hcond henv hsize rfl
    refine ⟨s', hsteps, hmem, ?_⟩
    rw [hposition]
    refine hlabels _ ?_
    rw [hT]
    refine preprocess_hasLabel_of_mem hins ?_
    rw [BytecodeInstruction.branchTargets_of_conditional hcond]
    split <;> simp

end Successors

theorem loopBytecode_wellFormed : WellFormedBytecode loopBytecode where
  walked := loopBytecode_walked
  targets := by
    intro ins hins hjump
    refine ⟨⟨[0, 7], ⟨.PshC4, 2, 1, by decide⟩, 0⟩, List.mem_cons_self, ?_⟩
    simp only [loopBytecode, List.mem_cons, List.not_mem_nil, or_false] at hins
    rcases hins with rfl | rfl | rfl | rfl | rfl
    · exact absurd hjump (by decide)
    · exact absurd hjump (by decide)
    · exact absurd hjump (by decide)
    · decide
    · exact absurd hjump (by decide)
  closed := by
    simp [loopBytecode, BytecodeInstruction.bc]
  last := ⟨_, rfl, .inl rfl⟩

/-- The loop, in particular. -/
theorem translateBytecode_mirrors_loop :
    ∃ T, translateBytecode loopContext loopBytecode = .ok T ∧ MirrorsBytecode loopBytecode T := by
  obtain ⟨T, hT, -⟩ := translateBytecode_loop
  exact ⟨T, hT, translateBytecode_mirrors loopBytecode_wellFormed hT⟩

end Asllvm
