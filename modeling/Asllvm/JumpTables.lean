import Mathlib.Data.List.TakeWhile
import Asllvm.Activation
import Asllvm.BytecodeCfg

/-!
# Jump Tables

A `JMPP` and the jumps right after it are a computed jump: the AngelScript VM adds twice the value
of a variable to the program pointer, and so comes to one of the jumps. The pre-pass finds the
jumps with a state of two fields that it keeps while it folds over the bytecode, and the `JMPP`
becomes a switch over their blocks.

* `JumpTable` — a `JMPP` and all the jumps that follow it.
* `Lowered` — what the translated function makes of one.

## Main results

* `preprocess_switchMap_iff` — the pre-pass records the jump tables, and nothing else.
* `jumpTables_lowered` — every jump table of a bytecode is lowered, and they are kept apart.
-/

open StateExcept

namespace Asllvm

/-- A **jump table**: a `JMPP`, and the run of jumps that follows it. The run is not empty, and the
instruction after it is not a jump. -/
structure JumpTable (bytecode : List BytecodeInstruction) (jmpp : BytecodeInstruction)
    (table : List BytecodeInstruction) : Prop where
  split : ∃ pre post, bytecode = pre ++ jmpp :: (table ++ post) ∧
    ∀ ins ∈ post.head?, ins.bc ≠ .JMP
  jmpp : jmpp.bc = .JMPP
  nonempty : table ≠ []
  jumps : ∀ ins ∈ table, ins.bc = .JMP

/-- The blocks of the jumps of a jump table. -/
def tableBlocks (table : List BytecodeInstruction) : List BlockId :=
  table.map fun entry => .label entry.offset

section Preprocess

variable {st : JumpTables × PreprocessContext} {bytecode table : List BytecodeInstruction}
  {ins jmpp : BytecodeInstruction} {o : ℕ}

/-- A jump of the table that is being handled adds its own block. -/
theorem preprocessInstruction_entry (hlabelled : st.1.Labelled) (hst : st.2 = ⟨o, true⟩)
    (hins : ins.bc = .JMP) :
    (preprocessInstruction st ins).2 = ⟨o, true⟩ ∧
      (preprocessInstruction st ins).1.switchMap o =
        some ((st.1.switchMap o).getD [] ++ [.label ins.offset]) := by
  obtain ⟨tables, ctx⟩ := st
  obtain rfl : ctx = ⟨o, true⟩ := hst
  have hlabelled' : ((preprocessUnconditionalBranch tables ins).insertLabel ins.offset).Labelled :=
    (JumpTables.Labelled.insertLabel hlabelled).insertLabel
  have hhas : ((preprocessUnconditionalBranch tables ins).insertLabel ins.offset).HasLabel
      ins.offset := JumpTables.insertLabel_hasLabel.mpr (.inl rfl)
  obtain ⟨b, hb⟩ := Option.isSome_iff_exists.mp hhas
  obtain rfl := hlabelled' _ _ hb
  rw [preprocessUnconditionalBranch] at hb
  simp [preprocessInstruction, hins, JumpTables.pushSwitchTarget, hb, insertLabel_switchMap,
    preprocessUnconditionalBranch]

/-- **The jumps of a table add their blocks in order**, by induction on the table. -/
theorem foldl_preprocess_entries (hlabelled : st.1.Labelled) (hst : st.2 = ⟨o, true⟩)
    (hjumps : ∀ ins ∈ table, ins.bc = .JMP) (hne : table ≠ []) :
    (table.foldl preprocessInstruction st).1.switchMap o =
      some ((st.1.switchMap o).getD [] ++ tableBlocks table) := by
  induction table generalizing st with
  | nil => exact absurd rfl hne
  | cons entry rest ih =>
      obtain ⟨hst', hmap⟩ :=
        preprocessInstruction_entry hlabelled hst (hjumps entry List.mem_cons_self)
      rw [List.foldl_cons]
      rcases eq_or_ne rest [] with rfl | hrest
      · exact hmap
      · rw [ih (preprocessInstruction_labelled hlabelled) hst'
          (fun ins hins => hjumps ins (List.mem_cons_of_mem _ hins)) hrest, hmap]
        simp [tableBlocks]

/-- **The pre-pass records the blocks of a jump table.** -/
theorem JumpTable.switchMap (hwalked : Walked bytecode) (h : JumpTable bytecode jmpp table) :
    (preprocess bytecode).switchMap jmpp.offset = some (tableBlocks table) := by
  obtain ⟨pre, post, rfl, hfirst⟩ := h.split
  obtain ⟨hpre, hpost⟩ := hwalked.lt_offset
  have hnone : (pre.foldl preprocessInstruction (.empty, ⟨0, false⟩)).1.switchMap jmpp.offset =
      none := foldl_preprocess_none pre fun ins hins _ => (hpre ins hins).ne
  have hlabelled : (pre.foldl preprocessInstruction (.empty, ⟨0, false⟩)).1.Labelled :=
    preprocess_labelled pre
  rw [preprocess, List.foldl_append, List.foldl_cons, preprocessInstruction_jmpp h.jmpp,
    List.foldl_append, foldl_preprocess_rest post hfirst
      fun ins hins => (hpost ins (List.mem_append_right _ hins)).ne']
  generalize pre.foldl preprocessInstruction (.empty, ⟨0, false⟩) = st at hnone hlabelled
  have hlabelled' : (st.1, (⟨jmpp.offset, true⟩ : PreprocessContext)).1.Labelled := hlabelled
  rw [foldl_preprocess_entries hlabelled' rfl h.jumps h.nonempty, hnone]
  rfl

/-- Every `JMPP` a jump follows has a jump table. -/
theorem exists_jumpTable (pre post : List BytecodeInstruction) {entry : BytecodeInstruction}
    (hjmpp : jmpp.bc = .JMPP) (hentry : entry.bc = .JMP) :
    ∃ table, JumpTable (pre ++ jmpp :: entry :: post) jmpp table := by
  let isJump : BytecodeInstruction → Bool := fun ins => ins.bc == .JMP
  refine ⟨entry :: post.takeWhile isJump, ⟨pre, post.dropWhile isJump, ?_, ?_⟩, hjmpp,
    List.cons_ne_nil _ _, ?_⟩
  · rw [List.cons_append, List.takeWhile_append_dropWhile]
  · intro ins hins hbc
    have hfalse := List.head?_dropWhile_not isJump post
    rw [Option.mem_def.mp hins] at hfalse
    simp [isJump, hbc] at hfalse
  · intro ins hins
    rcases List.mem_cons.mp hins with rfl | hins
    · exact hentry
    · have hjump := List.mem_takeWhile_imp hins
      simpa [isJump] using hjump

/-- **The pre-pass records the jump tables, and nothing else.** -/
theorem preprocess_switchMap_iff (hwalked : Walked bytecode) {targets : List BlockId} :
    (preprocess bytecode).switchMap o = some targets ↔
      ∃ jmpp table, JumpTable bytecode jmpp table ∧ jmpp.offset = o ∧
        targets = tableBlocks table := by
  constructor
  · intro h
    by_cases hjmpp : ∃ jmpp ∈ bytecode, jmpp.bc = .JMPP ∧ jmpp.offset = o
    · obtain ⟨jmpp, hmem, hbc, rfl⟩ := hjmpp
      obtain ⟨pre, post, rfl⟩ := List.append_of_mem hmem
      obtain ⟨hpre, hpost⟩ := hwalked.lt_offset
      obtain ⟨entry, rest, rfl, hentry⟩ := exists_entry_of_switchMap hbc
        (fun ins hins => (hpre ins hins).ne) (fun ins hins => (hpost ins hins).ne')
        (by rw [h]; exact Option.some_ne_none _)
      obtain ⟨table, htable⟩ := exists_jumpTable pre rest hbc hentry
      rw [htable.switchMap hwalked, Option.some.injEq] at h
      exact ⟨jmpp, table, htable, rfl, h.symm⟩
    · have hnone := foldl_preprocess_none (o := o) bytecode
        fun ins hins hbc ho => hjmpp ⟨ins, hins, hbc, ho⟩
      rw [preprocess, hnone] at h
      exact absurd h (Option.some_ne_none _).symm
  · rintro ⟨jmpp, table, htable, rfl, rfl⟩
    exact htable.switchMap hwalked

end Preprocess

/-! ### Where the jumps lie -/

section Offsets

variable {bytecode table : List BytecodeInstruction} {ins jmpp entry : BytecodeInstruction} {v : ℕ}

/-- The instructions after another one are walked from where it ends. -/
theorem WalkedFrom.of_split {start : ℕ} {pre post : List BytecodeInstruction}
    (h : WalkedFrom start (pre ++ ins :: post)) : WalkedFrom ins.next post := by
  induction pre generalizing start with
  | nil => exact h.2.2
  | cons x pre ih => exact ih h.2.2

/-- Jumps take two dwords each. -/
theorem WalkedFrom.jump_offset {start : ℕ} {post : List BytecodeInstruction}
    (h : WalkedFrom start (table ++ post)) (hjumps : ∀ ins ∈ table, ins.bc = .JMP)
    (hentry : table[v]? = some entry) : entry.offset = start + 2 * v := by
  induction table generalizing start v with
  | nil => exact absurd hentry (by simp)
  | cons ins rest ih =>
      obtain ⟨rfl, -, hrest⟩ := h
      cases v with
      | zero =>
          rw [List.getElem?_cons_zero] at hentry
          obtain rfl := Option.some.inj hentry
          rfl
      | succ v =>
          rw [List.getElem?_cons_succ] at hentry
          have hoffset := ih hrest (fun x hx => hjumps x (List.mem_cons_of_mem _ hx)) hentry
          rw [hoffset, BytecodeInstruction.next,
            ins.info.jump_size (.inl (hjumps ins List.mem_cons_self))]
          omega

/-- **The AngelScript VM jumps to the same jump**: its offset is that of the `JMPP`, one dword
further, and two for each jump before it. -/
theorem JumpTable.offset (hwalked : Walked bytecode) (h : JumpTable bytecode jmpp table)
    (hsize : jmpp.info.size = 1) (hentry : table[v]? = some entry) :
    entry.offset = jmpp.offset + 1 + 2 * v := by
  obtain ⟨pre, post, rfl, -⟩ := h.split
  rw [hwalked.of_split.jump_offset h.jumps hentry, BytecodeInstruction.next, hsize]

theorem JumpTable.mem (h : JumpTable bytecode jmpp table) :
    jmpp ∈ bytecode ∧ ∀ entry ∈ table, entry ∈ bytecode := by
  obtain ⟨pre, post, rfl, -⟩ := h.split
  refine ⟨by simp, fun entry hentry => ?_⟩
  exact List.mem_append_right _ (List.mem_cons_of_mem _ (List.mem_append_left _ hentry))

/-- Every jump of a table has a label. -/
theorem JumpTable.hasLabel (h : JumpTable bytecode jmpp table) (hentry : entry ∈ table) :
    (preprocess bytecode).HasLabel entry.offset := by
  obtain ⟨pre, post, rfl, -⟩ := h.split
  obtain ⟨before, after, rfl⟩ := List.append_of_mem hentry
  refine JumpTableEntry.hasLabel ⟨pre, jmpp, before, after ++ post, by simp, h.jmpp, ?_,
    h.jumps entry hentry⟩
  exact fun ins hins => h.jumps ins (List.mem_append_left _ hins)

/-- Two lists that end alike, after an element that does not, have that element in common. -/
theorem last_unique {α : Type} {P : α → Prop} {xs xs' ys ys' : List α} {x x' : α}
    (h : xs ++ x :: ys = xs' ++ x' :: ys') (hx : ¬ P x) (hx' : ¬ P x') (hys : ∀ y ∈ ys, P y)
    (hys' : ∀ y ∈ ys', P y) : x = x' := by
  rcases List.append_eq_append_iff.mp h with ⟨ws, rfl, hws⟩ | ⟨ws, rfl, hws⟩
  · cases ws with
    | nil => exact (List.cons.inj hws).1
    | cons w ws =>
        obtain ⟨rfl, rfl⟩ := List.cons.inj hws
        exact absurd (hys x' (by simp)) hx'
  · cases ws with
    | nil => exact (List.cons.inj hws).1.symm
    | cons w ws =>
        obtain ⟨rfl, rfl⟩ := List.cons.inj hws
        exact absurd (hys' x (by simp)) hx

/-- **Jump tables are kept apart**: a jump belongs to one table only. -/
theorem JumpTable.unique {jmpp' entry' : BytecodeInstruction} {table' : List BytecodeInstruction}
    (hwalked : Walked bytecode) (h : JumpTable bytecode jmpp table)
    (h' : JumpTable bytecode jmpp' table') (hentry : entry ∈ table) (hentry' : entry' ∈ table')
    (ho : entry.offset = entry'.offset) : jmpp = jmpp' := by
  obtain ⟨pre, post, hsplit, -⟩ := h.split
  obtain ⟨pre', post', hsplit', -⟩ := h'.split
  obtain ⟨before, after, rfl⟩ := List.append_of_mem hentry
  obtain ⟨before', after', rfl⟩ := List.append_of_mem hentry'
  have hat : bytecode = (pre ++ jmpp :: before) ++ entry :: (after ++ post) := by
    simpa using hsplit
  have hat' : bytecode = (pre' ++ jmpp' :: before') ++ entry' :: (after' ++ post') := by
    simpa using hsplit'
  rw [hat] at hwalked
  obtain ⟨hbefore, -, -⟩ := hwalked.split_unique (hat.symm.trans hat') ho
  refine last_unique (P := fun ins => ins.bc = .JMP) hbefore ?_ ?_
    (fun ins hins => h.jumps ins (List.mem_append_left _ hins))
    (fun ins hins => h'.jumps ins (List.mem_append_left _ hins))
  · rw [h.jmpp]
    exact Opcode.noConfusion
  · rw [h'.jmpp]
    exact Opcode.noConfusion

end Offsets

/-! ### The switch -/

section Lowered

variable {context : FunctionContext} {bytecode table : List BytecodeInstruction}
  {ins jmpp entry : BytecodeInstruction} {T : Translation} {st : BuilderState} {p : Position}

/-- An instruction with a label has its marker at the start of its block. -/
theorem Located.position_eq (hwalked : Walked bytecode)
    (h : translateBytecode context bytecode = .ok T)
    (hat : Located context T bytecode ins st p) (hlabel : T.jumps.HasLabel ins.offset) :
    p = (.label ins.offset, 0) := by
  obtain ⟨bound, hmarked⟩ := translateBytecode_marked hwalked h
  exact hmarked.unique _ _ _ hat.marker (label_filled hwalked h hat.mem hlabel)

/-- **The block of a jump only branches on**: it holds the marker of the jump, then the branch to
its target. -/
theorem jump_block (hwalked : Walked bytecode) (h : translateBytecode context bytecode = .ok T)
    (hins : ins ∈ bytecode) (hbc : ins.bc = .JMP) (hlabel : T.jumps.HasLabel ins.offset) :
    itemAt T.cfg.blocks (.label ins.offset, 0) = some (.marker ins.offset) ∧
      itemAt T.cfg.blocks (.label ins.offset, 1) = some (.term (.br (.label ins.target))) := by
  obtain ⟨st, p, hat⟩ := exists_located hwalked h hins
  obtain rfl := hat.position_eq hwalked h hlabel
  refine ⟨hat.marker, ?_⟩
  have hT : T.jumps = preprocess bytecode := (runs_translateBytecode h).1
  have htarget : T.jumps.jumpMap ins.target = some (.label ins.target) := by
    rw [hT]
    refine preprocess_jumpMap (preprocess_hasLabel_of_mem hins ?_)
    rw [BytecodeInstruction.branchTargets, if_pos hbc]
    exact List.mem_singleton_self _
  obtain ⟨pre, post, st', t, s', q, rfl, hsplit⟩ := hat
  have hruns := hsplit.here.runs
  simp only [translateOpcode, hbc, getBranchTarget, runs_bind, runs_atOrThrow, runs_pure,
    htarget] at hruns
  obtain ⟨_, _, ⟨hb, rfl⟩, rfl, rfl⟩ := hruns
  obtain rfl := Option.some.inj hb
  have hcode := hsplit.here.code
  have hleaves := hsplit.here.leaves
  cases hcode
  generalize st'.cfg.position = r at hleaves
  cases hleaves with
  | closed hitem => exact hitem

/-- The code of a `JMPP`: a load of the variable, and the switch. -/
theorem translateJmpP_runs {stack : StackFrame} {jumps : JumpTables} {s s' : EmitState}
    {t : Option Terminator} {targets : List BlockId} (hbc : ins.bc = .JMPP)
    (htargets : jumps.switchMap ins.offset = some targets)
    (h : Runs (translateOpcode stack jumps ins) s t s') : ∃ default,
      t = some (.switch (.reg s.nextReg) default targets) ∧
      s' = s.extend 1 [.instr (.load s.nextReg .i32 (stack.slotAddress ins.argSWord0))] := by
  simp only [translateOpcode, hbc, translateJmpP, runs_bind, runs_atOrThrow, htargets,
    runs_asllvmAssert, StackFrame.runs_load, runs_dereference, runs_pure] at h
  obtain ⟨_, _, ⟨_, _, ⟨hmap, rfl⟩, _, _, ⟨-, rfl⟩, _, _, ⟨-, rfl, rfl⟩, default, _, ⟨-, rfl⟩, rfl,
    rfl⟩, rfl, rfl⟩ := h
  obtain rfl := Option.some.inj hmap
  exact ⟨default, rfl, rfl⟩

/-- An instruction that neither stores nor calls. -/
def Instr.Reads : Instr → Prop
  | .store .. | .memset .. | .call .. => False
  | _ => True

/-- What the translated function makes of a jump table. -/
structure Lowered (bytecode : List BytecodeInstruction) (T : Translation)
    (jmpp : BytecodeInstruction) (table : List BytecodeInstruction) : Prop where
  /-- `m_switch_map` holds the blocks of the jumps, in order. -/
  targets : T.jumps.switchMap jmpp.offset = some (tableBlocks table)
  /-- The AngelScript VM reaches the `v`-th jump, whose block only branches on to its target. -/
  entries : ∀ v entry, table[v]? = some entry → entry.offset = jmpp.offset + 1 + 2 * v ∧
    itemAt T.cfg.blocks (.label entry.offset, 0) = some (.marker entry.offset) ∧
    itemAt T.cfg.blocks (.label entry.offset, 1) = some (.term (.br (.label entry.target)))
  /-- On the value `v`, control comes to the block of the `v`-th jump, from there to that of its
  target, and so to the instruction there. -/
  jumps : ∀ (env : Env) (host : Host) (calls : List Request) (s : LocalState) (v : ℕ)
    (entry : BytecodeInstruction), Activates T env → T.stack.InFrame jmpp.argSWord0 4 →
    itemAt T.cfg.blocks s.position = some (.marker jmpp.offset) → table[v]? = some entry →
    (Bytes.read s.mem (T.stack.byteAddress env.layout jmpp.argSWord0) 4).toNat = v →
    ∃ s₁ s₂, Reaches env host Instr.Reads calls s calls s₁ ∧
      s₁.position = (.label entry.offset, 0) ∧
      Reaches env host Instr.Reads calls s₁ calls s₂ ∧ s₂.position = (.label entry.target, 0) ∧
      s₂.mem = s.mem ∧ ∀ ins ∈ bytecode, (ins.offset : ℤ) = entry.target →
        itemAt T.cfg.blocks s₂.position = some (.marker ins.offset)

/-- A dword that is read is what an `i32` holds of it. -/
theorem toNat_truncate_i32 (mem : Bytes.Mem) (a : ℕ) :
    ((Ty.i32.truncate (Bytes.read mem a 4)).setWidth 32).toNat = (Bytes.read mem a 4).toNat := by
  have hread : ((Bytes.read mem a 4).setWidth (8 * 4)).setWidth 64 = Bytes.read mem a 4 :=
    Bytes.setWidth_read
  have hnat := congrArg BitVec.toNat hread
  rw [BitVec.toNat_setWidth, BitVec.toNat_setWidth] at hnat
  rw [Ty.truncate, show Ty.i32.bits = 8 * 4 from rfl, hread, BitVec.toNat_setWidth]
  omega

/-- **The switch chooses the jump the value says**: from the `JMPP`, control comes to the block of
the `v`-th jump. -/
theorem JumpTable.reaches_entry (hwalked : Walked bytecode)
    (h : translateBytecode context bytecode = .ok T) (htable : JumpTable bytecode jmpp table)
    {env : Env} (host : Host) (calls : List Request) {s : LocalState} {v : ℕ}
    (hact : Activates T env) (hframe : T.stack.InFrame jmpp.argSWord0 4)
    (hmarker : itemAt T.cfg.blocks s.position = some (.marker jmpp.offset))
    (hentry : table[v]? = some entry)
    (hv : (Bytes.read s.mem (T.stack.byteAddress env.layout jmpp.argSWord0) 4).toNat = v) :
    ∃ s₁, Reaches env host Instr.Reads calls s calls s₁ ∧
      s₁.position = (.label entry.offset, 0) ∧ s₁.mem = s.mem := by
  have hT : T.jumps = preprocess bytecode := (runs_translateBytecode h).1
  have htargets : T.jumps.switchMap jmpp.offset = some (tableBlocks table) := by
    rw [hT, htable.switchMap hwalked]
  obtain ⟨bound, hmarked⟩ := translateBytecode_marked hwalked h
  obtain ⟨st, p, hat⟩ := exists_located hwalked h htable.mem.1
  obtain rfl := hmarked.unique _ _ _ hmarker hat.marker
  obtain ⟨t, s', q, hruns, hterm, hreached⟩ := hat.reached
  obtain ⟨default, rfl, rfl⟩ := translateJmpP_runs htable.jmpp htargets hruns
  -- the load of the variable
  have hcode := hreached env host Instr.Reads calls s hact.blocks rfl (by simp [Instr.Reads])
  have hload := hframe.exec_load .i32 hact s.regs s.mem st.emit.nextReg
  rw [EmitState.extend_out, List.nil_append, runCode_step hload] at hcode
  -- the switch
  have hswitch := hterm _ rfl
  rw [← hact.blocks] at hswitch
  have hgoto : (Terminator.switch (.reg st.emit.nextReg) default (tableBlocks table)).goto env
      (Function.update s.regs st.emit.nextReg (Ty.i32.truncate
        (Bytes.read s.mem (T.stack.byteAddress env.layout jmpp.argSWord0) 4))) =
        some (.label entry.offset) := by
    rw [Terminator.goto, Operand.eval, Function.update_self, toNat_truncate_i32, hv, tableBlocks,
      List.getElem?_map, hentry]
    rfl
  have hstep := @LocalState.step_branch env ⟨q, _, s.mem, some jmpp.offset⟩ _ _ hswitch hgoto
  refine ⟨_, hcode.trans (.next ?_ hstep (.refl _ _)), rfl, rfl⟩
  intro i hi
  exact Item.noConfusion (Option.some.inj (hswitch.symm.trans hi))

/-- **Every jump table is lowered.** -/
theorem JumpTable.lowered (hwalked : Walked bytecode)
    (h : translateBytecode context bytecode = .ok T) (htable : JumpTable bytecode jmpp table)
    (hsize : jmpp.info.size = 1) : Lowered bytecode T jmpp table := by
  have hT : T.jumps = preprocess bytecode := (runs_translateBytecode h).1
  have hblock : ∀ entry ∈ table,
      itemAt T.cfg.blocks (.label entry.offset, 0) = some (.marker entry.offset) ∧
        itemAt T.cfg.blocks (.label entry.offset, 1) = some (.term (.br (.label entry.target))) :=
    fun entry hentry => jump_block hwalked h (htable.mem.2 entry hentry)
      (htable.jumps entry hentry) (hT ▸ htable.hasLabel hentry)
  refine ⟨hT ▸ htable.switchMap hwalked, fun v entry hentry => ?_, ?_⟩
  · exact ⟨htable.offset hwalked hsize hentry, hblock entry (List.mem_of_getElem? hentry)⟩
  · intro env host calls s v entry hact hframe hmarker hentry hv
    have hmem := List.mem_of_getElem? hentry
    obtain ⟨s₁, hreaches, hposition, hs₁⟩ :=
      htable.reaches_entry hwalked h host calls hact hframe hmarker hentry hv
    obtain ⟨hmarker₁, hbranch⟩ := hblock entry hmem
    rw [← hact.blocks] at hmarker₁ hbranch
    rw [← hposition] at hmarker₁
    have hnext : itemAt env.blocks s₁.position.next = some (.term (.br (.label entry.target))) := by
      rw [hposition]
      exact hbranch
    have hstep₁ := LocalState.step_marker hmarker₁
    have hstep₂ := @LocalState.step_branch env
      { s₁ with position := s₁.position.next, current := some entry.offset } _ _ hnext rfl
    refine ⟨s₁, _, hreaches, hposition, .next ?_ hstep₁ (.next ?_ hstep₂ (.refl _ _)), rfl, hs₁, ?_⟩
    · intro i hi
      exact Item.noConfusion (Option.some.inj (hmarker₁.symm.trans hi))
    · intro i hi
      exact Item.noConfusion (Option.some.inj (hnext.symm.trans hi))
    · intro ins hins ho
      have hlabel : T.jumps.HasLabel ins.offset := by
        rw [hT, ho]
        refine preprocess_hasLabel_of_mem (htable.mem.2 entry hmem) ?_
        rw [BytecodeInstruction.branchTargets, if_pos (htable.jumps entry hmem)]
        exact List.mem_singleton_self _
      have hfilled := label_filled hwalked h hins hlabel
      rwa [ho] at hfilled

/-- **Jump tables are lowered to the computed jump of the AngelScript VM**, for every bytecode: each
is lowered, the tables of the translation are those of the bytecode, and a jump is in one of them iff
it is in the run after a `JMPP`. -/
theorem jumpTables_lowered (hwalked : Walked bytecode)
    (hsizes : ∀ ins ∈ bytecode, ins.bc = .JMPP → ins.info.size = 1)
    (h : translateBytecode context bytecode = .ok T) :
    (∀ jmpp table, JumpTable bytecode jmpp table → Lowered bytecode T jmpp table) ∧
    (∀ o targets, T.jumps.switchMap o = some targets → ∃ jmpp table,
      JumpTable bytecode jmpp table ∧ jmpp.offset = o ∧ targets = tableBlocks table) ∧
    (∀ o o' targets targets' b, T.jumps.switchMap o = some targets →
      T.jumps.switchMap o' = some targets' → b ∈ targets → b ∈ targets' → o = o') ∧
    ∀ jump ∈ bytecode, (∃ o targets, T.jumps.switchMap o = some targets ∧
      .label jump.offset ∈ targets) ↔ ∃ jmpp table, JumpTable bytecode jmpp table ∧
        jump ∈ table := by
  have hT : T.jumps = preprocess bytecode := (runs_translateBytecode h).1
  have htables : ∀ o targets, T.jumps.switchMap o = some targets → ∃ jmpp table,
      JumpTable bytecode jmpp table ∧ jmpp.offset = o ∧ targets = tableBlocks table := by
    intro o targets htargets
    rw [hT] at htargets
    exact (preprocess_switchMap_iff hwalked).mp htargets
  refine ⟨fun jmpp table htable =>
    htable.lowered hwalked h (hsizes jmpp htable.mem.1 htable.jmpp), htables, ?_, ?_⟩
  · intro o o' targets targets' b htargets htargets' hb hb'
    obtain ⟨jmpp, table, htable, rfl, rfl⟩ := htables o targets htargets
    obtain ⟨jmpp', table', htable', rfl, rfl⟩ := htables o' targets' htargets'
    obtain ⟨entry, hentry, rfl⟩ := List.mem_map.mp hb
    obtain ⟨entry', hentry', ho⟩ := List.mem_map.mp hb'
    have hoffset : entry.offset = entry'.offset := by
      have := BlockId.label.inj ho
      omega
    rw [htable.unique hwalked htable' hentry hentry' hoffset]
  · intro jump hjump
    constructor
    · rintro ⟨o, targets, htargets, hmem⟩
      obtain ⟨jmpp, table, htable, rfl, rfl⟩ := htables o targets htargets
      obtain ⟨entry, hentry, ho⟩ := List.mem_map.mp hmem
      have hoffset : entry.offset = jump.offset := by
        have := BlockId.label.inj ho
        omega
      obtain rfl := hwalked.eq_of_offset (htable.mem.2 entry hentry) hjump hoffset
      exact ⟨jmpp, table, htable, hentry⟩
    · rintro ⟨jmpp, table, htable, hentry⟩
      exact ⟨jmpp.offset, _, hT ▸ htable.switchMap hwalked, List.mem_map.mpr ⟨jump, hentry, rfl⟩⟩

end Lowered

/-! ### A switch with two cases -/

/-- A computed jump by the first variable. -/
def switchJmpp : BytecodeInstruction := ⟨[0x10000], ⟨.JMPP, 1, 0, by decide⟩, 0⟩

/-- The jumps of two cases. -/
def switchTable : List BytecodeInstruction := [jmpAt 2 1, jmpAt 1 3]

/-- A switch with two cases, the first of which falls through to the second. -/
def switchBytecode : List BytecodeInstruction := switchJmpp :: (switchTable ++ [
  ⟨[0], ⟨.SUSPEND, 1, 0, by decide⟩, 5⟩,
  retAt 6])

theorem translateBytecode_switch : ∃ T, translateBytecode loopContext switchBytecode = .ok T ∧
    T.cfg.blocks (.label 1) = [.marker 1, .term (.br (.label 5))] :=
  exists_ok_of_map (by decide +kernel)

/-- A switch with two cases, in particular. -/
theorem jumpTables_lowered_switch : ∃ T, translateBytecode loopContext switchBytecode = .ok T ∧
    Lowered switchBytecode T switchJmpp switchTable := by
  obtain ⟨T, hT, -⟩ := translateBytecode_switch
  have hwalked : Walked switchBytecode := by
    simp [switchBytecode, switchJmpp, switchTable, jmpAt, retAt, WalkedFrom, BytecodeInstruction.next]
  have hsizes : ∀ ins ∈ switchBytecode, ins.bc = .JMPP → ins.info.size = 1 := by
    decide
  refine ⟨T, hT, (jumpTables_lowered hwalked hsizes hT).1 switchJmpp switchTable ?_⟩
  exact ⟨⟨[], _, rfl, by decide⟩, rfl, by decide, by decide⟩

end Asllvm
