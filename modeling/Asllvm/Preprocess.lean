import Asllvm.FunctionBuilder

/-!
# The Pre-Pass

`preprocess` folds over the bytecode and creates the labels. Every step only adds labels, so
the labels at the end are those some instruction asked for (`preprocess_jumpMap_isSome`): the
targets of the branches, and the jumps of the jump tables themselves.
-/

namespace Asllvm

/-- The offsets the pre-pass labels for an instruction on its own: where a jump goes, and for
a conditional one also where it goes on. -/
def BytecodeInstruction.branchTargets (ins : BytecodeInstruction) : List ℤ :=
  if ins.bc = .JMP then [ins.target]
  else if ins.bc.isConditionalJump then [ins.offset + 2, ins.target]
  else []

theorem BytecodeInstruction.branchTargets_of_conditional {ins : BytecodeInstruction}
    (h : ins.bc.isConditionalJump = true) :
    ins.branchTargets = [(ins.offset : ℤ) + 2, ins.target] := by
  have hne : ins.bc ≠ .JMP := by
    intro hjmp
    rw [hjmp] at h
    exact absurd h Bool.false_ne_true
  rw [branchTargets, if_neg hne, if_pos h]

namespace JumpTables

/-- There is a label at the offset. -/
def HasLabel (tables : JumpTables) (offset : ℤ) : Prop := (tables.jumpMap offset).isSome = true

instance (tables : JumpTables) (offset : ℤ) : Decidable (tables.HasLabel offset) :=
  inferInstanceAs (Decidable (_ = true))

/-- The label of an offset is the block named after it. -/
def Labelled (tables : JumpTables) : Prop :=
  ∀ o b, tables.jumpMap o = some b → b = .label o

variable {tables : JumpTables} {offset o : ℤ}

theorem insertLabel_hasLabel :
    (tables.insertLabel offset).HasLabel o ↔ o = offset ∨ tables.HasLabel o := by
  unfold insertLabel HasLabel
  split
  · rename_i hsome
    constructor
    · exact .inr
    · rintro (rfl | h)
      · exact hsome
      · exact h
  · by_cases ho : o = offset
    · simp [ho]
    · simp [ho]

theorem Labelled.insertLabel (h : tables.Labelled) : (tables.insertLabel offset).Labelled := by
  unfold JumpTables.insertLabel
  split
  · exact h
  · intro l b hl
    by_cases ho : l = offset
    · subst ho
      simpa [eq_comm] using hl
    · simp only [ne_eq, ho, not_false_eq_true, Function.update_of_ne] at hl
      exact h l b hl

@[simp]
theorem pushSwitchTarget_hasLabel {switch : ℕ} :
    (tables.pushSwitchTarget switch offset).HasLabel o ↔ tables.HasLabel o := Iff.rfl

theorem Labelled.pushSwitchTarget {switch : ℕ} (h : tables.Labelled) :
    (tables.pushSwitchTarget switch offset).Labelled := h

end JumpTables

variable {st : JumpTables × PreprocessContext} {ins : BytecodeInstruction} {o : ℤ}

/-- What the pre-pass does with one instruction: it adds the labels the instruction asks for,
and for the jumps of a jump table their own. -/
theorem preprocessInstruction_hasLabel :
    (preprocessInstruction st ins).1.HasLabel o ↔ o ∈ ins.branchTargets ∨
      (ins.bc = .JMP ∧ st.2.handlingJumpTable = true ∧ o = ins.offset) ∨ st.1.HasLabel o := by
  obtain ⟨tables, ctx⟩ := st
  cases hbc : ins.bc
  case JMP =>
    by_cases hctx : ctx.handlingJumpTable = true <;>
      simp [preprocessInstruction, hbc, BytecodeInstruction.branchTargets, hctx,
        preprocessUnconditionalBranch, JumpTables.insertLabel_hasLabel, or_left_comm]
  all_goals
    simp [preprocessInstruction, hbc, BytecodeInstruction.branchTargets,
      Opcode.isConditionalJump, preprocessConditionalBranch, preprocessUnconditionalBranch,
      JumpTables.insertLabel_hasLabel, or_left_comm, or_assoc]

theorem preprocessInstruction_labelled (h : st.1.Labelled) :
    (preprocessInstruction st ins).1.Labelled := by
  obtain ⟨tables, ctx⟩ := st
  cases hbc : ins.bc
  case JMP =>
    by_cases hctx : ctx.handlingJumpTable = true <;>
      simp only [preprocessInstruction, hbc, hctx]
    · exact h.insertLabel.insertLabel.pushSwitchTarget
    · exact h.insertLabel
  case JZ | JNZ | JS | JNS | JP | JNP | JLowZ | JLowNZ =>
    simp only [preprocessInstruction, hbc]
    exact h.insertLabel.insertLabel
  all_goals
    simp only [preprocessInstruction, hbc]
    exact h

/-- The labels after folding over a bytecode. -/
theorem foldl_preprocess_hasLabel (bytecode : List BytecodeInstruction) :
    ((bytecode.foldl preprocessInstruction st).1.HasLabel o →
      (∃ ins ∈ bytecode, o ∈ ins.branchTargets ∨ ins.bc = .JMP ∧ o = ins.offset) ∨
        st.1.HasLabel o) ∧
    ((∃ ins ∈ bytecode, o ∈ ins.branchTargets) ∨ st.1.HasLabel o →
      (bytecode.foldl preprocessInstruction st).1.HasLabel o) := by
  induction bytecode generalizing st with
  | nil => simp
  | cons ins rest ih =>
      obtain ⟨hfrom, hto⟩ := @ih (preprocessInstruction st ins)
      constructor
      · intro h
        rcases hfrom h with ⟨ins', hmem, h'⟩ | h'
        · exact .inl ⟨ins', List.mem_cons_of_mem _ hmem, h'⟩
        · rcases preprocessInstruction_hasLabel.mp h' with h' | ⟨hbc, -, h'⟩ | h'
          · exact .inl ⟨ins, List.mem_cons_self, .inl h'⟩
          · exact .inl ⟨ins, List.mem_cons_self, .inr ⟨hbc, h'⟩⟩
          · exact .inr h'
      · rintro (⟨ins', hmem, h'⟩ | h')
        · rcases List.mem_cons.mp hmem with rfl | hmem
          · exact hto (.inr (preprocessInstruction_hasLabel.mpr (.inl h')))
          · exact hto (.inl ⟨ins', hmem, h'⟩)
        · exact hto (.inr (preprocessInstruction_hasLabel.mpr (.inr (.inr h'))))

theorem foldl_preprocess_labelled (bytecode : List BytecodeInstruction) (h : st.1.Labelled) :
    (bytecode.foldl preprocessInstruction st).1.Labelled := by
  induction bytecode generalizing st with
  | nil => exact h
  | cons ins rest ih => exact ih (preprocessInstruction_labelled h)

/-- **A label is where a branch goes**, or a jump of a jump table. -/
theorem preprocess_hasLabel {bytecode : List BytecodeInstruction}
    (h : (preprocess bytecode).HasLabel o) :
    ∃ ins ∈ bytecode, o ∈ ins.branchTargets ∨ ins.bc = .JMP ∧ o = ins.offset := by
  rcases (foldl_preprocess_hasLabel bytecode).1 h with h | h
  · exact h
  · exact absurd h (by simp [JumpTables.HasLabel, JumpTables.empty])

/-- Wherever a branch goes, there is a label. -/
theorem preprocess_hasLabel_of_mem {bytecode : List BytecodeInstruction}
    (hins : ins ∈ bytecode) (ho : o ∈ ins.branchTargets) : (preprocess bytecode).HasLabel o :=
  (foldl_preprocess_hasLabel bytecode).2 (.inl ⟨ins, hins, ho⟩)

theorem preprocess_labelled (bytecode : List BytecodeInstruction) :
    (preprocess bytecode).Labelled :=
  foldl_preprocess_labelled bytecode (fun _ _ h => nomatch h)

/-- The label at an offset, spelled out. -/
theorem preprocess_jumpMap {bytecode : List BytecodeInstruction}
    (h : (preprocess bytecode).HasLabel o) :
    (preprocess bytecode).jumpMap o = some (.label o) := by
  obtain ⟨b, hb⟩ := Option.isSome_iff_exists.mp h
  rw [hb, preprocess_labelled bytecode o b hb]

/-! ### Jump tables -/

/-- The jump at the end of `table` is one of the jump table that starts at a `JMPP`. -/
def JumpTableEntry (bytecode : List BytecodeInstruction) (entry : BytecodeInstruction) : Prop :=
  ∃ pre jmpp table post, bytecode = pre ++ jmpp :: (table ++ entry :: post) ∧
    jmpp.bc = .JMPP ∧ (∀ ins ∈ table, ins.bc = .JMP) ∧ entry.bc = .JMP

/-- While a jump table is handled, each of its jumps gets a label of its own. -/
theorem foldl_preprocess_table (table : List BytecodeInstruction) {entry : BytecodeInstruction}
    {post : List BytecodeInstruction} (hst : st.2.handlingJumpTable = true)
    (htable : ∀ ins ∈ table, ins.bc = .JMP) (hentry : entry.bc = .JMP) :
    ((table ++ entry :: post).foldl preprocessInstruction st).1.HasLabel entry.offset := by
  induction table generalizing st with
  | nil =>
      rw [List.nil_append, List.foldl_cons]
      refine (foldl_preprocess_hasLabel post).2 (.inr ?_)
      exact preprocessInstruction_hasLabel.mpr (.inr (.inl ⟨hentry, hst, rfl⟩))
  | cons ins table ih =>
      rw [List.cons_append, List.foldl_cons]
      refine ih ?_ fun ins' hins' => htable ins' (List.mem_cons_of_mem _ hins')
      obtain ⟨tables, ctx⟩ := st
      have hbc := htable ins List.mem_cons_self
      have hctx : ctx.handlingJumpTable = true := hst
      simp [preprocessInstruction, hbc, hctx]

/-- **Every jump of a jump table has a label.** -/
theorem JumpTableEntry.hasLabel {bytecode : List BytecodeInstruction} {entry : BytecodeInstruction}
    (h : JumpTableEntry bytecode entry) : (preprocess bytecode).HasLabel entry.offset := by
  obtain ⟨pre, jmpp, table, post, rfl, hjmpp, htable, hentry⟩ := h
  rw [preprocess, List.foldl_append, List.foldl_cons]
  refine foldl_preprocess_table table ?_ htable hentry
  simp [preprocessInstruction, hjmpp]

/-- No jump table that starts at the offset is being handled. -/
def Settled (o : ℕ) (st : JumpTables × PreprocessContext) : Prop :=
  st.2.handlingJumpTable = true → st.2.currentSwitchOffset ≠ o

theorem insertLabel_switchMap (tables : JumpTables) (offset : ℤ) :
    (tables.insertLabel offset).switchMap = tables.switchMap := by
  rw [JumpTables.insertLabel]
  split <;> rfl

/-- **A jump table is finished once it is not handled any more**: instructions other than a `JMPP`
at its offset leave it as it is. -/
theorem Settled.step {o : ℕ} (h : Settled o st) (hins : ins.bc = .JMPP → ins.offset ≠ o) :
    Settled o (preprocessInstruction st ins) ∧
      (preprocessInstruction st ins).1.switchMap o = st.1.switchMap o := by
  obtain ⟨tables, ctx⟩ := st
  cases hbc : ins.bc
  case JMPP => exact ⟨by simpa [Settled, preprocessInstruction, hbc] using hins hbc,
    by simp [preprocessInstruction, hbc]⟩
  case JMP =>
    by_cases hhandling : ctx.handlingJumpTable = true
    · have hne : ctx.currentSwitchOffset ≠ o := h hhandling
      simp [Settled, preprocessInstruction, hbc, hhandling, JumpTables.pushSwitchTarget,
        preprocessUnconditionalBranch, insertLabel_switchMap, hne, hne.symm]
    · simp [Settled, preprocessInstruction, hbc, hhandling, preprocessUnconditionalBranch,
        insertLabel_switchMap]
  all_goals
    simp [Settled, preprocessInstruction, hbc, preprocessConditionalBranch,
      preprocessUnconditionalBranch, insertLabel_switchMap]

theorem Settled.foldl {o : ℕ} (bytecode : List BytecodeInstruction) (h : Settled o st)
    (hoffsets : ∀ ins ∈ bytecode, ins.bc = .JMPP → ins.offset ≠ o) :
    Settled o (bytecode.foldl preprocessInstruction st) ∧
      (bytecode.foldl preprocessInstruction st).1.switchMap o = st.1.switchMap o := by
  induction bytecode generalizing st with
  | nil => exact ⟨h, rfl⟩
  | cons ins rest ih =>
      obtain ⟨hsettled, hstep⟩ := h.step (hoffsets ins List.mem_cons_self)
      obtain ⟨hsettled', hrest⟩ :=
        ih hsettled fun ins' hins' => hoffsets ins' (List.mem_cons_of_mem _ hins')
      exact ⟨hsettled', hrest.trans hstep⟩

/-- Before its `JMPP`, no jump table is recorded for an offset. -/
theorem foldl_preprocess_none {o : ℕ} (pre : List BytecodeInstruction)
    (hpre : ∀ ins ∈ pre, ins.bc = .JMPP → ins.offset ≠ o) :
    (pre.foldl preprocessInstruction (.empty, ⟨0, false⟩)).1.switchMap o = none :=
  have hempty : Settled o (.empty, ⟨0, false⟩) := fun h => absurd h Bool.false_ne_true
  (hempty.foldl pre hpre).2

/-- What the pre-pass has recorded at a `JMPP`: nothing, and that its jump table is next. -/
theorem preprocessInstruction_jmpp (hbc : ins.bc = .JMPP) :
    preprocessInstruction st ins = (st.1, ⟨ins.offset, true⟩) := by
  simp [preprocessInstruction, hbc]

/-- An instruction other than a jump ends a jump table. -/
theorem preprocessInstruction_settled {o : ℕ} (st : JumpTables × PreprocessContext) (hbc : ins.bc ≠ .JMP)
    (hins : ins.bc = .JMPP → ins.offset ≠ o) : Settled o (preprocessInstruction st ins) ∧
      (preprocessInstruction st ins).1.switchMap o = st.1.switchMap o := by
  obtain ⟨tables, ctx⟩ := st
  cases hbc' : ins.bc
  case JMP => exact absurd hbc' hbc
  case JMPP => exact ⟨by simpa [Settled, preprocessInstruction, hbc'] using hins hbc',
    by simp [preprocessInstruction, hbc']⟩
  all_goals
    simp [Settled, preprocessInstruction, hbc', preprocessConditionalBranch,
      preprocessUnconditionalBranch, insertLabel_switchMap]

/-- The instructions after a jump table leave it as it is. -/
theorem foldl_preprocess_rest {o : ℕ} (post : List BytecodeInstruction)
    (hfirst : ∀ ins ∈ post.head?, ins.bc ≠ .JMP) (hpost : ∀ ins ∈ post, ins.offset ≠ o) :
    (post.foldl preprocessInstruction st).1.switchMap o = st.1.switchMap o := by
  cases post with
  | nil => rfl
  | cons ins rest =>
      obtain ⟨hsettled, hins⟩ := preprocessInstruction_settled st (hfirst ins rfl)
        fun _ => hpost ins List.mem_cons_self
      have hrest := (hsettled.foldl rest fun ins' hins' _ =>
        hpost ins' (List.mem_cons_of_mem _ hins')).2
      rw [List.foldl_cons, hrest, hins]

/-- **A jump table starts right after its `JMPP`.** -/
theorem exists_entry_of_switchMap {pre post : List BytecodeInstruction} {jmpp : BytecodeInstruction}
    (hjmpp : jmpp.bc = .JMPP) (hpre : ∀ ins ∈ pre, ins.offset ≠ jmpp.offset)
    (hpost : ∀ ins ∈ post, ins.offset ≠ jmpp.offset)
    (h : (preprocess (pre ++ jmpp :: post)).switchMap jmpp.offset ≠ none) :
    ∃ entry rest, post = entry :: rest ∧ entry.bc = .JMP := by
  by_contra hnone
  refine h ?_
  have hfirst : ∀ ins ∈ post.head?, ins.bc ≠ .JMP := by
    intro ins hins hbc
    obtain ⟨rest, hrest⟩ := List.head?_eq_some_iff.mp hins
    exact hnone ⟨ins, rest, hrest, hbc⟩
  rw [preprocess, List.foldl_append, List.foldl_cons, preprocessInstruction_jmpp hjmpp,
    foldl_preprocess_rest post hfirst hpost]
  exact foldl_preprocess_none pre fun ins hins _ => hpre ins hins

/-- The targets of every jump table are labels. -/
def TablesLabelled (tables : JumpTables) : Prop :=
  ∀ o targets, tables.switchMap o = some targets → ∀ b ∈ targets, ∃ l, b = .label l

theorem TablesLabelled.insertLabel {tables : JumpTables} (h : TablesLabelled tables) (l : ℤ) :
    TablesLabelled (tables.insertLabel l) := by
  intro o targets htargets
  rw [insertLabel_switchMap] at htargets
  exact h o targets htargets

theorem TablesLabelled.pushSwitchTarget {tables : JumpTables} (h : TablesLabelled tables)
    (hlabelled : tables.Labelled) (switch : ℕ) (l : ℤ) :
    TablesLabelled (tables.pushSwitchTarget switch l) := by
  intro o targets htargets b hb
  by_cases ho : o = switch
  · simp only [JumpTables.pushSwitchTarget, ho, Function.update_self] at htargets
    obtain rfl := Option.some.inj htargets
    rcases List.mem_append.mp hb with hold | hnew
    · cases hmap : tables.switchMap switch with
      | none => simp [hmap] at hold
      | some old => exact h switch old hmap b (by simpa [hmap] using hold)
    · exact ⟨l, hlabelled l b (Option.mem_toList.mp hnew)⟩
  · simp only [JumpTables.pushSwitchTarget, Function.update_of_ne ho] at htargets
    exact h o targets htargets b hb

theorem preprocessInstruction_tables (hlabelled : st.1.Labelled) (h : TablesLabelled st.1) :
    TablesLabelled (preprocessInstruction st ins).1 := by
  obtain ⟨tables, ctx⟩ := st
  cases hbc : ins.bc
  case JMP =>
    by_cases hctx : ctx.handlingJumpTable = true <;>
      simp only [preprocessInstruction, hbc, hctx, preprocessUnconditionalBranch]
    · exact ((h.insertLabel _).insertLabel _).pushSwitchTarget
        (hlabelled.insertLabel.insertLabel) _ _
    · exact h.insertLabel _
  case JZ | JNZ | JS | JNS | JP | JNP | JLowZ | JLowNZ =>
    simp only [preprocessInstruction, hbc]
    exact (h.insertLabel _).insertLabel _
  all_goals
    simp only [preprocessInstruction, hbc]
    exact h

/-- **The targets of every jump table are labels**, by induction on the bytecode. -/
theorem preprocess_tables (bytecode : List BytecodeInstruction) :
    TablesLabelled (preprocess bytecode) := by
  have hgen : ∀ st : JumpTables × PreprocessContext, st.1.Labelled → TablesLabelled st.1 →
      TablesLabelled (bytecode.foldl preprocessInstruction st).1 := by
    induction bytecode with
    | nil => exact fun _ _ h => h
    | cons ins rest ih =>
        exact fun st hlabelled h => ih _ (preprocessInstruction_labelled hlabelled)
          (preprocessInstruction_tables hlabelled h)
  exact hgen _ (fun _ _ h => nomatch h) (fun _ _ h => nomatch h)

end Asllvm
