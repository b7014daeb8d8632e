import Asllvm.EmitRuns
import Asllvm.Preprocess

/-!
# Where the Code of a Bytecode Lies

The builder only ever appends to the end of a block, so an item keeps its position for good.
This module turns that observation into a description of the finished function that no longer
mentions the builder:

* `CodeAt type F p ps q` — the pieces `ps` lie in `F` from position `p` on and end before `q`; a
  check in between continues at the start of the block it splits off.
* `LaidOut` — the code of a bytecode, instruction after instruction: where each one starts,
  with which emission state it was translated, which pieces and which terminator it left, and
  how control gets from the end of one to the start of the next.

## Main results

* `foldl_place_codeAt` — placing pieces lays them out.
* `translateBytecode_laidOut` — every translation is laid out, from the local structures at
  the start of the `entry` block to the last instruction.

The only fact about the bytecode used is that its instructions follow each other (`Walked`):
it is what makes the block of a label empty when the scan reaches it.
-/

open StateExcept

namespace Asllvm

/-- A position in a function: a block, and an index into its items. -/
abbrev Position := BlockId × ℕ

/-- The item at a position. -/
def itemAt (F : BlockId → List Item) (p : Position) : Option Item := (F p.1)[p.2]?

/-- The position after `p` in the same block. -/
def Position.next (p : Position) : Position := (p.1, p.2 + 1)

/-- What the block that the `n`-th check leaves through holds: an implementation returns the state,
the entry thunk reports it and goes on where the check would have gone on. -/
def exceptionBlock (type : GeneratedFunctionType) (n : ℕ) (state : Operand) : List Item :=
  match type with
  | .Implementation => [.term (.ret state)]
  | .VmEntryThunk =>
      [.instr (.call none (.runtime .setInternalException) [⟨state, .vmState⟩]),
        .term (.br (.doNotSetVmException n))]

/-- The pieces `ps` lie in `F` from `p` on, and `q` is the position after the last of them. A
check is a branch to the block that leaves the function and to the block the code goes on
in. -/
inductive CodeAt (type : GeneratedFunctionType) (F : BlockId → List Item) :
    Position → List Piece → Position → Prop
  | nil (p : Position) : CodeAt type F p [] p
  | instr {p q : Position} {i : Instr} {ps : List Piece} :
      itemAt F p = some (.instr i) → CodeAt type F p.next ps q → CodeAt type F p (.instr i :: ps) q
  | check {p q : Position} {cond state : Operand} {n : ℕ} {ps : List Piece} :
      itemAt F p = some (.term (.condBr cond (.setVmException n) (.doNotSetVmException n))) →
      exceptionBlock type n state <+: F (.setVmException n) →
      CodeAt type F (.doNotSetVmException n, 0) ps q → CodeAt type F p (.check cond state :: ps) q

/-- The items at the start of a block. -/
theorem itemAt_of_prefix {F : BlockId → List Item} {b : BlockId} {items : List Item} {k : ℕ}
    {item : Item} (h : items <+: F b) (hitem : items[k]? = some item) :
    itemAt F (b, k) = some item := by
  obtain ⟨rest, hrest⟩ := h
  rw [itemAt, ← hrest, List.getElem?_append_left (List.getElem?_eq_some_iff.mp hitem).1, hitem]

/-- Code laid out piece after piece is laid out as a whole. -/
theorem CodeAt.append {type : GeneratedFunctionType} {F : BlockId → List Item} {p q r : Position}
    {ps qs : List Piece} (h : CodeAt type F p ps q) (h' : CodeAt type F q qs r) :
    CodeAt type F p (ps ++ qs) r := by
  induction h with
  | nil => exact h'
  | instr hitem _ ih => exact .instr hitem (ih h')
  | check hitem hret _ ih => exact .check hitem hret (ih h')

/-- Pieces that are laid out are so one part after another. -/
theorem CodeAt.of_append {type : GeneratedFunctionType} {F : BlockId → List Item} {p r : Position}
    {ps qs : List Piece} (h : CodeAt type F p (ps ++ qs) r) :
    ∃ q, CodeAt type F p ps q ∧ CodeAt type F q qs r := by
  induction ps generalizing p with
  | nil => exact ⟨p, .nil p, h⟩
  | cons piece ps ih =>
      cases h with
      | instr hitem hrest =>
          obtain ⟨q, hps, hqs⟩ := ih hrest
          exact ⟨q, .instr hitem hps, hqs⟩
      | check hitem hret hrest =>
          obtain ⟨q, hps, hqs⟩ := ih hrest
          exact ⟨q, .check hitem hret hps, hqs⟩

namespace Cfg

/-- The insertion point as a position. -/
def position (cfg : Cfg) : Position := (cfg.insertBlock, (cfg.blocks cfg.insertBlock).length)

/-- `F` holds everything built so far: every block of `cfg` is a prefix of the same block of
`F`. -/
def BuiltInto (cfg : Cfg) (F : BlockId → List Item) : Prop := ∀ b, cfg.blocks b <+: F b

/-- The blocks of the checks still to come are empty and code is not appended to them. -/
structure Fresh (cfg : Cfg) : Prop where
  setVmException : ∀ n, cfg.nextCheck ≤ n → cfg.blocks (.setVmException n) = []
  doNotSetVmException : ∀ n, cfg.nextCheck ≤ n → cfg.blocks (.doNotSetVmException n) = []
  notSet : ∀ n, cfg.insertBlock ≠ .setVmException n
  notDoNotSet : ∀ n, cfg.nextCheck ≤ n → cfg.insertBlock ≠ .doNotSetVmException n

/-- The labels from `offset` on are empty and code is not appended to them. -/
def LabelsFresh (cfg : Cfg) (offset : ℤ) : Prop :=
  ∀ o, offset ≤ o → cfg.blocks (.label o) = [] ∧ cfg.insertBlock ≠ .label o

variable {cfg cfg' : Cfg} {F : BlockId → List Item} {item : Item} {b : BlockId}

@[simp] theorem append_insertBlock : (cfg.append item).insertBlock = cfg.insertBlock := rfl
@[simp] theorem append_nextCheck : (cfg.append item).nextCheck = cfg.nextCheck := rfl

@[simp]
theorem append_blocks_self : (cfg.append item).blocks cfg.insertBlock =
    cfg.blocks cfg.insertBlock ++ [item] := by
  simp [append]

@[simp]
theorem append_blocks_of_ne (h : b ≠ cfg.insertBlock) :
    (cfg.append item).blocks b = cfg.blocks b := by
  simp [append, h]

theorem append_position : (cfg.append item).position = cfg.position.next := by
  simp [position, Position.next]

theorem BuiltInto.of_append (h : (cfg.append item).BuiltInto F) : cfg.BuiltInto F := by
  intro b
  by_cases hb : b = cfg.insertBlock
  · subst hb
    have hpre := h cfg.insertBlock
    rw [append_blocks_self] at hpre
    exact (List.prefix_append _ _).trans hpre
  · simpa [hb] using h b

/-- What has been appended is found at the position it was appended at. -/
theorem BuiltInto.itemAt_append (h : (cfg.append item).BuiltInto F) :
    itemAt F cfg.position = some item := by
  have hpre := h cfg.insertBlock
  rw [append_blocks_self] at hpre
  obtain ⟨rest, hrest⟩ := hpre
  simp [itemAt, position, ← hrest]

theorem Fresh.append (h : cfg.Fresh) : (cfg.append item).Fresh where
  setVmException n hn := by
    rw [append_blocks_of_ne (fun hb => h.notSet n hb.symm)]
    exact h.setVmException n hn
  doNotSetVmException n hn := by
    rw [append_blocks_of_ne (fun hb => h.notDoNotSet n hn hb.symm)]
    exact h.doNotSetVmException n hn
  notSet := h.notSet
  notDoNotSet := h.notDoNotSet

theorem LabelsFresh.append {o : ℤ} (h : cfg.LabelsFresh o) : (cfg.append item).LabelsFresh o := by
  intro l hl
  obtain ⟨hempty, hne⟩ := h l hl
  exact ⟨by rw [append_blocks_of_ne (fun hb => hne hb.symm)]; exact hempty, hne⟩

/-! ### Checks -/

variable {type : GeneratedFunctionType}

/-- The blocks after a check. -/
theorem emitCheckBoolean_blocks (hfresh : cfg.Fresh) {value state : Operand} :
    (cfg.emitCheckBoolean type value state).blocks =
      Function.update
        (cfg.append (.term (.condBr value (.setVmException cfg.nextCheck)
          (.doNotSetVmException cfg.nextCheck)))).blocks
        (.setVmException cfg.nextCheck) (exceptionBlock type cfg.nextCheck state) := by
  have hne : BlockId.setVmException cfg.nextCheck ≠ cfg.insertBlock :=
    fun h => hfresh.notSet _ h.symm
  cases type <;>
    simp [emitCheckBoolean, emitVmExceptionReturn, setInsertPoint, Cfg.append, exceptionBlock,
      Function.update_of_ne hne, hfresh.setVmException _ (Nat.le_refl _)]

@[simp]
theorem emitCheckBoolean_nextCheck {value state : Operand} :
    (cfg.emitCheckBoolean type value state).nextCheck = cfg.nextCheck + 1 := by
  cases type <;> rfl

theorem Fresh.emitCheckBoolean (hfresh : cfg.Fresh) {value state : Operand} :
    (cfg.emitCheckBoolean type value state).Fresh where
  setVmException n hn := by
    rw [emitCheckBoolean_nextCheck] at hn
    have hlt : cfg.nextCheck < n := hn
    rw [emitCheckBoolean_blocks hfresh, Function.update_of_ne (by simp; omega)]
    exact hfresh.append.setVmException n (Nat.le_of_lt hlt)
  doNotSetVmException n hn := by
    rw [emitCheckBoolean_nextCheck] at hn
    have hlt : cfg.nextCheck < n := hn
    rw [emitCheckBoolean_blocks hfresh, Function.update_of_ne (by simp)]
    exact hfresh.append.doNotSetVmException n (Nat.le_of_lt hlt)
  notSet n := by simp [Cfg.emitCheckBoolean, setInsertPoint]
  notDoNotSet n hn := by
    rw [emitCheckBoolean_nextCheck] at hn
    have hlt : cfg.nextCheck < n := hn
    simp [Cfg.emitCheckBoolean, setInsertPoint]
    omega

theorem LabelsFresh.emitCheckBoolean {o : ℤ} (hfresh : cfg.Fresh) (h : cfg.LabelsFresh o)
    {value state : Operand} :
    (cfg.emitCheckBoolean type value state).LabelsFresh o := by
  intro l hl
  rw [emitCheckBoolean_blocks hfresh, Function.update_of_ne (by simp)]
  exact ⟨(h.append l hl).1, by simp [Cfg.emitCheckBoolean, setInsertPoint]⟩

theorem emitCheckBoolean_position (hfresh : cfg.Fresh) {value state : Operand} :
    (cfg.emitCheckBoolean type value state).position =
      (.doNotSetVmException cfg.nextCheck, 0) := by
  have hbranch : (cfg.append (.term (.condBr value (.setVmException cfg.nextCheck)
      (.doNotSetVmException cfg.nextCheck)))).Fresh := hfresh.append
  have hempty := hbranch.doNotSetVmException cfg.nextCheck (Nat.le_refl _)
  have hinsert : (cfg.emitCheckBoolean type value state).insertBlock =
      .doNotSetVmException cfg.nextCheck := by
    simp [Cfg.emitCheckBoolean, setInsertPoint]
  rw [position, hinsert, emitCheckBoolean_blocks hfresh, Function.update_of_ne (by simp)]
  rw [hempty, List.length_nil]

theorem BuiltInto.of_emitCheckBoolean (hfresh : cfg.Fresh) {value state : Operand}
    (h : (cfg.emitCheckBoolean type value state).BuiltInto F) :
    (cfg.append (.term (.condBr value (.setVmException cfg.nextCheck)
      (.doNotSetVmException cfg.nextCheck)))).BuiltInto F := by
  intro b
  have hb := h b
  rw [emitCheckBoolean_blocks hfresh] at hb
  by_cases hset : b = .setVmException cfg.nextCheck
  · subst hset
    rw [hfresh.append.setVmException cfg.nextCheck (Nat.le_refl _)]
    exact List.nil_prefix
  · rwa [Function.update_of_ne hset] at hb

/-! ### Pieces -/

theorem Fresh.place (hfresh : cfg.Fresh) (piece : Piece) :
    (cfg.place type piece).Fresh := by
  cases piece with
  | instr i => exact hfresh.append
  | check value state => exact hfresh.emitCheckBoolean

theorem LabelsFresh.place {o : ℤ} (hfresh : cfg.Fresh) (h : cfg.LabelsFresh o)
    (piece : Piece) : (cfg.place type piece).LabelsFresh o := by
  cases piece with
  | instr i => exact h.append
  | check value state => exact h.emitCheckBoolean hfresh

/-- Placing pieces keeps the invariants of the builder. -/
theorem foldl_place_fresh {o : ℤ} (ps : List Piece) (hfresh : cfg.Fresh)
    (hlabels : cfg.LabelsFresh o) :
    (ps.foldl (Cfg.place type) cfg).Fresh ∧
      (ps.foldl (Cfg.place type) cfg).LabelsFresh o := by
  induction ps generalizing cfg with
  | nil => exact ⟨hfresh, hlabels⟩
  | cons piece ps ih => exact ih (hfresh.place piece) (hlabels.place hfresh piece)

/-- **Placing pieces lays them out** from the insertion point before to the one after, in
every function built from there. -/
theorem foldl_place_codeAt (ps : List Piece) (hfresh : cfg.Fresh)
    (hinto : (ps.foldl (Cfg.place type) cfg).BuiltInto F) :
    CodeAt type F cfg.position ps (ps.foldl (Cfg.place type) cfg).position ∧
      cfg.BuiltInto F := by
  induction ps generalizing cfg with
  | nil => exact ⟨.nil _, hinto⟩
  | cons piece ps ih =>
      obtain ⟨hcode, hbuilt⟩ := ih (hfresh.place piece) hinto
      cases piece with
      | instr i =>
          have hpos : (cfg.place type (.instr i)).position = cfg.position.next :=
            append_position
          rw [hpos] at hcode
          exact ⟨.instr hbuilt.itemAt_append hcode, hbuilt.of_append⟩
      | check value state =>
          have hpos : (cfg.place type (.check value state)).position = _ :=
            emitCheckBoolean_position hfresh
          rw [hpos] at hcode
          have hbranch := hbuilt.of_emitCheckBoolean hfresh
          have hset := hbuilt (.setVmException cfg.nextCheck)
          rw [Cfg.place, emitCheckBoolean_blocks hfresh, Function.update_self] at hset
          exact ⟨.check hbranch.itemAt_append hset hcode, hbranch.of_append⟩

/-! ### Labels -/

/-- Where `getTerminator` finds a terminator, there is one in the block. -/
theorem exists_terminator_of_hasTerminator (h : cfg.hasTerminator = true) :
    ∃ item ∈ cfg.blocks cfg.insertBlock, item.isTerminator = true := by
  rw [hasTerminator, Option.any_eq_true] at h
  obtain ⟨item, hlast, hterm⟩ := h
  exact ⟨item, (List.mem_filter.mp (List.mem_of_getLast? hlast)).1, hterm⟩

theorem switchToBlock_insertBlock : (cfg.switchToBlock b).insertBlock = b := rfl

theorem Fresh.switchToBlock (h : cfg.Fresh) (o : ℤ) : (cfg.switchToBlock (.label o)).Fresh := by
  have hcfg : (if cfg.hasTerminator then cfg else cfg.append (.term (.br (.label o)))).Fresh := by
    split
    · exact h
    · exact h.append
  exact ⟨hcfg.setVmException, hcfg.doNotSetVmException, nofun, fun _ _ => nofun⟩

/-- Entering a label leaves the labels after it empty, and its own block too. -/
theorem LabelsFresh.switchToBlock {o : ℤ} (h : cfg.LabelsFresh o) :
    (cfg.switchToBlock (.label o)).LabelsFresh (o + 1) ∧
      (cfg.switchToBlock (.label o)).position = (.label o, 0) := by
  have hcfg : (if cfg.hasTerminator then cfg
      else cfg.append (.term (.br (.label o)))).LabelsFresh o := by
    split
    · exact h
    · exact h.append
  refine ⟨fun l hl => ⟨(hcfg l (by omega)).1, ?_⟩, ?_⟩
  · simp only [switchToBlock_insertBlock, ne_eq, BlockId.label.injEq]
    omega
  · exact congrArg (Prod.mk _ ·.length) (hcfg o (by omega)).1

end Cfg

/-! ### The scan -/

/-- `emitCode` runs the emission from a clean list of pieces, and places what it emits. -/
@[simp]
theorem runs_emitCode {α : Type} {type : GeneratedFunctionType} {code : EmitM α} {a : α}
    {st st' : BuilderState} :
    Runs (emitCode type code) st a st' ↔ ∃ e, Runs code { st.emit with out := [] } a e ∧
      st' = ⟨e, e.out.foldl (Cfg.place type) st.cfg⟩ := by
  unfold Runs emitCode
  cases hrun : code { st.emit with out := [] } with
  | error e => simp [bind, Except.bind]
  | ok r => simp [bind, Except.bind, pure, Except.pure, Prod.ext_iff, and_assoc, eq_comm]

/-- `modifyCfg` changes the function under construction only. -/
@[simp]
theorem runs_modifyCfg {f : Cfg → Cfg} {st st' : BuilderState} {u : Unit} :
    Runs (modifyCfg f) st u st' ↔ st' = ⟨st.emit, f st.cfg⟩ := by
  simp [modifyCfg]

/-- How control gets from `r`, the end of the code before, to the start `p` of an instruction
that has the given label: it is already there, or a branch to the label lies at `r`, unless
the block of `r` ended before. -/
inductive Enters (F : BlockId → List Item) (r : Position) : Option BlockId → Position → Prop
  | fallthrough : Enters F r none r
  | label {b : BlockId} :
      ((∀ n < r.2, ∀ item, itemAt F (r.1, n) = some item → item.isTerminator = false) →
        itemAt F r = some (.term (.br b))) → Enters F r (some b) (b, 0)

/-- What lies at `q`, the end of the pieces of an instruction, and where code is appended
next. -/
inductive Leaves (F : BlockId → List Item) (q : Position) : Option Terminator → Position → Prop
  | open : Leaves F q none q
  | closed {t : Terminator} : itemAt F q = some (.term t) → Leaves F q (some t) q.next

/-- An instruction laid out in `F`: `s` and `s'` are the emission states before and after its
translation, `r` and `r'` the insertion points; its marker is at `p`, and its pieces end at
`q`. -/
structure InstructionAt (stack : StackFrame) (jumps : JumpTables) (F : BlockId → List Item)
    (ins : BytecodeInstruction) (s : EmitState) (r p : Position) (t : Option Terminator)
    (s' : EmitState) (q r' : Position) : Prop where
  enters : Enters F r (jumps.jumpMap ins.offset) p
  emptyAtLabel : stack.config.assertions = true → (jumps.jumpMap ins.offset).isSome = true →
    s.stackPointer = stack.variableSpace
  bounds : stack.config.assertions = true →
    stack.variableSpace ≤ s.stackPointer ∧ s.stackPointer ≤ stack.totalSpace
  marker : itemAt F p = some (.marker ins.offset)
  runs : Runs (translateOpcode stack jumps ins) { s with out := [] } t s'
  code : CodeAt .Implementation F p.next s'.out q
  leaves : Leaves F q t r'
  stackInc : stack.config.assertions = true → ins.info.stackInc ≠ 0xFFFF →
    s'.stackPointer - s.stackPointer = ins.info.stackInc

/-- The code of a bytecode laid out in `F`, one instruction after another. -/
inductive LaidOut (stack : StackFrame) (jumps : JumpTables) (F : BlockId → List Item) :
    EmitState → Position → List BytecodeInstruction → EmitState → Position → Prop
  | nil {s : EmitState} {r : Position} : LaidOut stack jumps F s r [] s r
  | cons {ins : BytecodeInstruction} {rest : List BytecodeInstruction} {s s' u : EmitState}
      {r p q r' z : Position} {t : Option Terminator} :
      InstructionAt stack jumps F ins s r p t s' q r' →
      LaidOut stack jumps F s' r' rest u z → LaidOut stack jumps F s r (ins :: rest) u z

/-- Entering the block of an instruction's label, if it has one. -/
def Cfg.enterLabel (cfg : Cfg) : Option BlockId → Cfg
  | some b => cfg.switchToBlock b
  | none => cfg

/-- Appending the terminator of an instruction, if it has one. -/
def Cfg.close (cfg : Cfg) : Option Terminator → Cfg
  | some t => cfg.append (.term t)
  | none => cfg

/-- The steps of a successful `translate_instruction`. -/
theorem runs_translateInstruction {stack : StackFrame} {jumps : JumpTables}
    {ins : BytecodeInstruction} {st st' : BuilderState}
    (h : Runs (translateInstruction stack jumps ins) st () st') :
    (stack.config.assertions = true → (jumps.jumpMap ins.offset).isSome = true →
      st.emit.stackPointer = stack.variableSpace) ∧
    (stack.config.assertions = true → stack.variableSpace ≤ st.emit.stackPointer ∧
      st.emit.stackPointer ≤ stack.totalSpace) ∧
    ∃ t e, Runs (translateOpcode stack jumps ins) { st.emit with out := [] } t e ∧
      (stack.config.assertions = true → ins.info.stackInc ≠ 0xFFFF →
        e.stackPointer - st.emit.stackPointer = ins.info.stackInc) ∧
      st'.cfg = (e.out.foldl (Cfg.place .Implementation)
        ((st.cfg.enterLabel (jumps.jumpMap ins.offset)).append (.marker ins.offset))).close t ∧
      { st'.emit with out := [] } = { e with out := [] } := by
  unfold translateInstruction at h
  cases hlabel : jumps.jumpMap ins.offset with
  | none =>
      simp [hlabel, and_assoc] at h
      obtain ⟨hbounds, t, e, hcode, h⟩ := h
      refine ⟨fun _ hsome => by simp at hsome, hbounds, t, e, hcode, ?_⟩
      cases t <;> by_cases hinc : ins.info.stackInc = 0xFFFF <;>
        simp_all [Cfg.enterLabel, Cfg.close, and_assoc]
  | some b =>
      simp [hlabel, and_assoc] at h
      obtain ⟨hempty, hbounds, t, e, hcode, h⟩ := h
      refine ⟨fun ha _ => hempty ha, hbounds, t, e, hcode, ?_⟩
      cases t <;> by_cases hinc : ins.info.stackInc = 0xFFFF <;>
        simp_all [Cfg.enterLabel, Cfg.close, and_assoc]

namespace Cfg

variable {cfg : Cfg} {F : BlockId → List Item} {label : Option BlockId} {o : ℤ}

/-- What has been built stays where it is. -/
theorem BuiltInto.itemAt_of_lt {b : BlockId} {n : ℕ} (h : cfg.BuiltInto F)
    (hn : n < (cfg.blocks b).length) : itemAt F (b, n) = (cfg.blocks b)[n]? := by
  obtain ⟨rest, hrest⟩ := h b
  rw [itemAt, ← hrest, List.getElem?_append_left hn]

theorem enterLabel_fresh (hlabel : ∀ b, label = some b → b = .label o) (hfresh : cfg.Fresh)
    (hlabels : cfg.LabelsFresh o) :
    (cfg.enterLabel label).Fresh ∧ (cfg.enterLabel label).LabelsFresh (o + 1) := by
  cases label with
  | none => exact ⟨hfresh, fun l hl => hlabels l (by omega)⟩
  | some b =>
      obtain rfl := hlabel b rfl
      exact ⟨hfresh.switchToBlock o, hlabels.switchToBlock.1⟩

/-- Entering a label branches to it from the position before, unless that block has ended. -/
theorem enterLabel_enters (hlabel : ∀ b, label = some b → b = .label o)
    (hlabels : cfg.LabelsFresh o) (hinto : (cfg.enterLabel label).BuiltInto F) :
    cfg.BuiltInto F ∧ Enters F cfg.position label (cfg.enterLabel label).position := by
  cases label with
  | none => exact ⟨hinto, .fallthrough⟩
  | some b =>
      obtain rfl := hlabel b rfl
      have hpos : (cfg.enterLabel (some (.label o))).position = (.label o, 0) :=
        hlabels.switchToBlock.2
      rw [hpos]
      by_cases hterm : cfg.hasTerminator = true
      · have hbuilt : cfg.BuiltInto F := by
          simpa [enterLabel, switchToBlock, hterm, BuiltInto, setInsertPoint] using hinto
        refine ⟨hbuilt, .label fun hopen => ?_⟩
        obtain ⟨item, hmem, hitem⟩ := exists_terminator_of_hasTerminator hterm
        obtain ⟨n, hn, rfl⟩ := List.getElem_of_mem hmem
        have hat : itemAt F (cfg.insertBlock, n) = some (cfg.blocks cfg.insertBlock)[n] := by
          rw [hbuilt.itemAt_of_lt hn, List.getElem?_eq_getElem hn]
        rw [hopen n hn _ hat] at hitem
        exact absurd hitem Bool.false_ne_true
      · have hbuilt : (cfg.append (.term (.br (.label o)))).BuiltInto F := by
          simpa [enterLabel, switchToBlock, hterm, BuiltInto, setInsertPoint] using hinto
        exact ⟨hbuilt.of_append, .label fun _ => hbuilt.itemAt_append⟩

theorem close_fresh {t : Option Terminator} (hfresh : cfg.Fresh) (hlabels : cfg.LabelsFresh o) :
    (cfg.close t).Fresh ∧ (cfg.close t).LabelsFresh o := by
  cases t with
  | none => exact ⟨hfresh, hlabels⟩
  | some t => exact ⟨hfresh.append, hlabels.append⟩

theorem close_leaves {t : Option Terminator} (hinto : (cfg.close t).BuiltInto F) :
    cfg.BuiltInto F ∧ Leaves F cfg.position t (cfg.close t).position := by
  cases t with
  | none => exact ⟨hinto, .open⟩
  | some t =>
      have hpos : (cfg.close (some t)).position = cfg.position.next := append_position
      rw [hpos]
      exact ⟨hinto.of_append, .closed hinto.itemAt_append⟩

end Cfg

section Scan

variable {stack : StackFrame} {jumps : JumpTables} {st st' : BuilderState}

/-- One step of the scan keeps the invariants of the builder and lays the instruction out. -/
theorem translateInstruction_instructionAt {ins : BytecodeInstruction} {s : EmitState}
    (hjumps : jumps.Labelled) (hs : { s with out := [] } = { st.emit with out := [] })
    (hrun : Runs (translateInstruction stack jumps ins) st () st')
    (hfresh : st.cfg.Fresh) (hlabels : st.cfg.LabelsFresh ins.offset) :
    st'.cfg.Fresh ∧ st'.cfg.LabelsFresh (ins.offset + 1) ∧
      ∃ s', { s' with out := [] } = { st'.emit with out := [] } ∧
        ∀ F, st'.cfg.BuiltInto F → st.cfg.BuiltInto F ∧ ∃ p t q,
          InstructionAt stack jumps F ins s st.cfg.position p t s' q st'.cfg.position := by
  obtain ⟨hempty, hbounds, t, e, hcode, hinc, hcfg, hemit⟩ := runs_translateInstruction hrun
  have hsp : s.stackPointer = st.emit.stackPointer := (EmitState.mk.inj hs).1
  have hlabel : ∀ b, jumps.jumpMap ins.offset = some b → b = .label ins.offset :=
    hjumps ins.offset
  obtain ⟨hfresh₁, hlabels₁⟩ := Cfg.enterLabel_fresh hlabel hfresh hlabels
  obtain ⟨hfresh₂, hlabels₂⟩ : (e.out.foldl (Cfg.place .Implementation)
      ((st.cfg.enterLabel (jumps.jumpMap ins.offset)).append (.marker ins.offset))).Fresh ∧ _ :=
    Cfg.foldl_place_fresh e.out hfresh₁.append hlabels₁.append
  obtain ⟨hfresh₃, hlabels₃⟩ : (Cfg.close _ t).Fresh ∧ _ := Cfg.close_fresh hfresh₂ hlabels₂
  rw [← hcfg] at hfresh₃ hlabels₃
  refine ⟨hfresh₃, hlabels₃, e, hemit.symm, fun F hinto => ?_⟩
  rw [hcfg] at hinto
  obtain ⟨hinto₂, hleaves⟩ := Cfg.close_leaves hinto
  obtain ⟨hat, hinto₁⟩ := Cfg.foldl_place_codeAt e.out hfresh₁.append hinto₂
  obtain ⟨hinto₀, henters⟩ := Cfg.enterLabel_enters hlabel hlabels hinto₁.of_append
  rw [Cfg.append_position] at hat
  rw [hcfg]
  exact ⟨hinto₀, _, t, _, {
    enters := henters
    emptyAtLabel := fun ha hl => by rw [hsp]; exact hempty ha hl
    bounds := fun ha => by rw [hsp]; exact hbounds ha
    marker := hinto₁.itemAt_append
    runs := by rw [hs]; exact hcode
    code := hat
    leaves := hleaves
    stackInc := fun ha hne => by rw [hsp]; exact hinc ha hne }⟩

/-- **The scan lays the bytecode out**, by induction on it: the step keeps the invariants that
the next step needs. -/
theorem forM_translateInstruction_laidOut (bytecode : List BytecodeInstruction)
    {start : ℕ} {s : EmitState} (hjumps : jumps.Labelled) (hwalked : WalkedFrom start bytecode)
    (hs : { s with out := [] } = { st.emit with out := [] })
    (hrun : Runs (bytecode.forM (translateInstruction stack jumps)) st () st')
    (hfresh : st.cfg.Fresh) (hlabels : st.cfg.LabelsFresh start) :
    ∃ s', { s' with out := [] } = { st'.emit with out := [] } ∧
      ∀ F, st'.cfg.BuiltInto F → st.cfg.BuiltInto F ∧
        LaidOut stack jumps F s st.cfg.position bytecode s' st'.cfg.position := by
  induction bytecode generalizing start s st with
  | nil =>
      rw [runs_forM_nil] at hrun
      subst hrun
      exact ⟨s, hs, fun F hinto => ⟨hinto, .nil⟩⟩
  | cons ins rest ih =>
      obtain ⟨rfl, hsize, hrest⟩ := hwalked
      obtain ⟨st₁, hins, hrun⟩ := runs_forM_cons.mp hrun
      obtain ⟨hfresh₁, hlabels₁, s₁, hs₁, hstep⟩ :=
        translateInstruction_instructionAt hjumps hs hins hfresh hlabels
      have hnext : st₁.cfg.LabelsFresh ins.next := fun l hl =>
        hlabels₁ l (by simp only [BytecodeInstruction.next] at hl; omega)
      obtain ⟨s', hs', hlaid⟩ := ih hrest hs₁ hrun hfresh₁ hnext
      refine ⟨s', hs', fun F hinto => ?_⟩
      obtain ⟨hinto₁, hlaid⟩ := hlaid F hinto
      obtain ⟨hinto₀, p, t, q, hat⟩ := hstep F hinto₁
      exact ⟨hinto₀, .cons hat hlaid⟩

end Scan

theorem Cfg.new_fresh : Cfg.new.Fresh where
  setVmException _ _ := rfl
  doNotSetVmException _ _ := rfl
  notSet _ := by simp [new]
  notDoNotSet _ _ := by simp [new]

theorem Cfg.new_labelsFresh : Cfg.new.LabelsFresh 0 := fun _ _ => ⟨rfl, by simp [new]⟩

/-- The state of the builder after the local structures. -/
def BuilderState.afterLocals (s₀ : EmitState) : BuilderState :=
  ⟨s₀, s₀.out.foldl (Cfg.place .Implementation) .new⟩

/-- The steps of a successful translation: the local structures, the scan, and `finalize`. -/
theorem runs_translateBytecode {context : FunctionContext} {bytecode : List BytecodeInstruction}
    {T : Translation} (h : translateBytecode context bytecode = .ok T) :
    T.jumps = preprocess bytecode ∧ ∃ s₀ st₁,
      Runs (emitAllocateLocalStructures context) BuilderState.new.emit T.stack s₀ ∧
      Runs (bytecode.forM (translateInstruction T.stack T.jumps)) (.afterLocals s₀) () st₁ ∧
      T.cfg = st₁.cfg ∧ T.emit = { st₁.emit with out := [] } ∧
      (T.stack.config.assertions = true → st₁.emit.stackPointer = T.stack.variableSpace) := by
  obtain ⟨⟨stack, st⟩, hbuild, hT⟩ := except_bind_ok.mp h
  obtain rfl : T = ⟨stack, preprocess bytecode, st.emit, st.cfg⟩ := (Except.ok.inj hT).symm
  change Runs _ _ _ _ at hbuild
  simp only [buildImplementation, runs_bind, runs_emitCode, runs_pure] at hbuild
  obtain ⟨_, _, ⟨s₀, hlocal, rfl⟩, _, st₁, hscan, _, _, ⟨e, hfinal, rfl⟩, rfl, rfl⟩ := hbuild
  simp only [StackFrame.finalize, runs_bind, StackFrame.runs_emptyStack,
    runs_asllvmAssert] at hfinal
  obtain ⟨_, _, ⟨rfl, rfl⟩, hempty, rfl⟩ := hfinal
  exact ⟨rfl, s₀, st₁, hlocal, hscan, rfl, rfl, fun ha => by simpa using hempty ha⟩

/-- **A translated bytecode is laid out in its function**: the local structures at the start of
the `entry` block, then the instructions, translated from the frame those structures set up. -/
theorem translateBytecode_laidOut {context : FunctionContext}
    {bytecode : List BytecodeInstruction} {T : Translation} (hwalked : Walked bytecode)
    (h : translateBytecode context bytecode = .ok T) :
    T.jumps = preprocess bytecode ∧ ∃ s₀ r₀ s₁,
      Runs (emitAllocateLocalStructures context) BuilderState.new.emit T.stack s₀ ∧
      CodeAt .Implementation T.cfg.blocks (.entry, 0) s₀.out r₀ ∧
      LaidOut T.stack T.jumps T.cfg.blocks s₀ r₀ bytecode s₁ T.cfg.position ∧
      (T.stack.config.assertions = true → s₁.stackPointer = T.stack.variableSpace) := by
  obtain ⟨hjumps, s₀, st₁, hlocal, hscan, hcfg, -, hempty⟩ := runs_translateBytecode h
  obtain ⟨hfresh, hlabels⟩ :=
    Cfg.foldl_place_fresh s₀.out Cfg.new_fresh Cfg.new_labelsFresh
  rw [hjumps] at hscan ⊢
  obtain ⟨s₁, hs₁, hlaid⟩ := forM_translateInstruction_laidOut bytecode
    (preprocess_labelled bytecode) hwalked rfl hscan hfresh hlabels
  rw [hcfg]
  obtain ⟨hinto, hlaid⟩ := hlaid st₁.cfg.blocks (fun b => List.prefix_refl _)
  refine ⟨rfl, s₀, _, s₁, hlocal, (Cfg.foldl_place_codeAt s₀.out Cfg.new_fresh hinto).1, hlaid,
    fun ha => ?_⟩
  have hsp : s₁.stackPointer = st₁.emit.stackPointer := (EmitState.mk.inj hs₁).1
  rw [hsp, hempty ha]

end Asllvm
