import Asllvm.Successors

/-!
# Every Block Ends Once

A block is open while code is appended to it, and closed by a terminator. The translator adds the
branches to labels by looking at what the insertion block ends with, and the checks keep changing
that block in mid-instruction; still, code is only ever appended to open blocks, as long as every
instruction that ends its block is followed by a label.

`Cfg.Formed` is the invariant of the scan: of the blocks left behind, each one is closed, and none
that a check has created was left empty.

## Main results

* `foldl_place_formed` — the pieces of an instruction keep the invariant and leave an open block.
* `forM_translateInstruction_formed` — a whole scan keeps it too; its last block is closed if the
  last instruction ends it.
-/

open StateExcept

namespace Asllvm

/-- A block without a terminator. -/
def OpenBlock (items : List Item) : Prop := ∀ item ∈ items, item.isTerminator = false

/-- A block with exactly one terminator, at its end. -/
def ClosedBlock (items : List Item) : Prop :=
  ∃ init t, items = init ++ [.term t] ∧ OpenBlock init

theorem OpenBlock.nil : OpenBlock [] := fun _ hitem => absurd hitem List.not_mem_nil

theorem OpenBlock.append {items : List Item} {item : Item} (h : OpenBlock items)
    (hitem : item.isTerminator = false) : OpenBlock (items ++ [item]) := by
  intro item' hmem
  rcases List.mem_append.mp hmem with hmem | hmem
  · exact h item' hmem
  · rw [List.mem_singleton.mp hmem]
    exact hitem

theorem OpenBlock.close {items : List Item} (h : OpenBlock items) (t : Terminator) :
    ClosedBlock (items ++ [.term t]) := ⟨items, t, rfl, h⟩

theorem ClosedBlock.ne_nil {items : List Item} (h : ClosedBlock items) : items ≠ [] := by
  obtain ⟨init, t, rfl, -⟩ := h
  simp

namespace Cfg

variable {cfg : Cfg} {item : Item} {b : BlockId}

/-- The insertion block is open. -/
def Open (cfg : Cfg) : Prop := OpenBlock (cfg.blocks cfg.insertBlock)

/-- The insertion block is closed. -/
def Closed (cfg : Cfg) : Prop := ClosedBlock (cfg.blocks cfg.insertBlock)

/-- The blocks of the function other than the labels: its entry, and the pair of each check. -/
def Created (cfg : Cfg) : BlockId → Prop
  | .entry => True
  | .label _ => False
  | .setVmException n | .doNotSetVmException n => n < cfg.nextCheck

/-- **The blocks left behind are closed**, and no block of the function was left empty. -/
structure Formed (cfg : Cfg) : Prop where
  elsewhere : ∀ b, b ≠ cfg.insertBlock → cfg.blocks b = [] ∨ ClosedBlock (cfg.blocks b)
  created : ∀ b, cfg.Created b → cfg.blocks b ≠ [] ∨ cfg.insertBlock = b

theorem new_formed : Cfg.new.Formed where
  elsewhere _ _ := .inl rfl
  created b hb := by
    cases b with
    | entry => exact .inr rfl
    | label o => exact absurd hb (fun h => h)
    | setVmException n => exact absurd hb (Nat.not_lt_zero n)
    | doNotSetVmException n => exact absurd hb (Nat.not_lt_zero n)

/-- An open block has no terminator, a closed one has. -/
theorem Open.hasTerminator (h : cfg.Open) : cfg.hasTerminator = false := by
  by_contra hterm
  obtain ⟨item, hmem, hitem⟩ := exists_terminator_of_hasTerminator (by simpa using hterm)
  rw [h item hmem] at hitem
  exact Bool.noConfusion hitem

theorem Closed.hasTerminator (h : cfg.Closed) : cfg.hasTerminator = true := by
  obtain ⟨init, t, hitems, -⟩ := h
  rw [Cfg.hasTerminator, hitems]
  simp [Item.isMarker, Item.isTerminator]

theorem Open.append (h : cfg.Open) (hitem : item.isTerminator = false) :
    (cfg.append item).Open := by
  rw [Open, append_insertBlock, append_blocks_self]
  exact OpenBlock.append h hitem

theorem Open.close (h : cfg.Open) (t : Terminator) : (cfg.append (.term t)).Closed := by
  rw [Closed, append_insertBlock, append_blocks_self]
  exact OpenBlock.close h t

theorem Formed.append (h : cfg.Formed) : (cfg.append item).Formed where
  elsewhere b hb := by
    rw [append_insertBlock] at hb
    rw [append_blocks_of_ne hb]
    exact h.elsewhere b hb
  created b hb := by
    by_cases hinsert : b = cfg.insertBlock
    · exact .inr hinsert.symm
    · rw [append_blocks_of_ne hinsert]
      exact h.created b hb

/-- A check closes its block and opens the one that goes on; the one that leaves is a single
`ret`. -/
theorem Formed.emitCheckBoolean {value state : Operand} (h : cfg.Formed) (hfresh : cfg.Fresh)
    (hopen : cfg.Open) : (cfg.emitCheckBoolean .Implementation value state).Formed ∧
      (cfg.emitCheckBoolean .Implementation value state).Open := by
  have hblocks := @emitCheckBoolean_blocks cfg .Implementation hfresh value state
  have hinsert : (cfg.emitCheckBoolean .Implementation value state).insertBlock =
      .doNotSetVmException cfg.nextCheck := rfl
  have hempty : cfg.blocks (.doNotSetVmException cfg.nextCheck) = [] :=
    hfresh.doNotSetVmException _ (Nat.le_refl _)
  have hne : BlockId.doNotSetVmException cfg.nextCheck ≠ cfg.insertBlock :=
    fun heq => hfresh.notDoNotSet _ (Nat.le_refl _) heq.symm
  -- what the branch of the check leaves behind
  have hclosed := hopen.close (.condBr value (.setVmException cfg.nextCheck)
    (.doNotSetVmException cfg.nextCheck))
  have happend := @Formed.append cfg (.term (.condBr value (.setVmException cfg.nextCheck)
    (.doNotSetVmException cfg.nextCheck))) h
  refine ⟨⟨fun b hb => ?_, fun b hb => ?_⟩, ?_⟩
  · rw [hblocks]
    by_cases hset : b = .setVmException cfg.nextCheck
    · rw [hset, Function.update_self]
      exact .inr ⟨[], .ret state, rfl, .nil⟩
    · rw [Function.update_of_ne hset]
      by_cases hold : b = cfg.insertBlock
      · rw [hold]
        exact .inr hclosed
      · exact happend.elsewhere b hold
  · rw [hblocks]
    by_cases hset : b = .setVmException cfg.nextCheck
    · rw [hset, Function.update_self]
      exact .inl (List.cons_ne_nil _ _)
    · rw [Function.update_of_ne hset]
      by_cases hgo : b = .doNotSetVmException cfg.nextCheck
      · exact .inr hgo.symm
      · have hcreated : cfg.Created b := by
          cases b with
          | entry => trivial
          | label o => exact hb
          | setVmException n =>
              have hlt : n < cfg.nextCheck + 1 := hb
              have hn : n ≠ cfg.nextCheck := fun heq => hset (congrArg _ heq)
              exact show n < cfg.nextCheck by omega
          | doNotSetVmException n =>
              have hlt : n < cfg.nextCheck + 1 := hb
              have hn : n ≠ cfg.nextCheck := fun heq => hgo (congrArg _ heq)
              exact show n < cfg.nextCheck by omega
        by_cases hold : b = cfg.insertBlock
        · rw [hold]
          exact .inl hclosed.ne_nil
        · rcases happend.created b hcreated with hnil | heq
          · exact .inl hnil
          · exact absurd heq.symm hold
  · rw [Open, hinsert, hblocks, Function.update_of_ne (by simp), append_blocks_of_ne hne, hempty]
    exact .nil

theorem Formed.place (h : cfg.Formed) (hfresh : cfg.Fresh) (hopen : cfg.Open) (piece : Piece) :
    (cfg.place .Implementation piece).Formed ∧ (cfg.place .Implementation piece).Open := by
  cases piece with
  | instr i => exact ⟨h.append, hopen.append rfl⟩
  | check value state => exact h.emitCheckBoolean hfresh hopen

/-- **Placing pieces leaves an open block**, by induction on the pieces. -/
theorem foldl_place_formed (ps : List Piece) (h : cfg.Formed) (hfresh : cfg.Fresh)
    (hopen : cfg.Open) : (ps.foldl (Cfg.place .Implementation) cfg).Formed ∧
      (ps.foldl (Cfg.place .Implementation) cfg).Open := by
  induction ps generalizing cfg with
  | nil => exact ⟨h, hopen⟩
  | cons piece ps ih =>
      obtain ⟨hformed, hopen'⟩ := h.place hfresh hopen piece
      exact ih hformed (hfresh.place piece) hopen'

/-- Entering the empty block of a label closes an open block by a branch to it, and leaves a closed
one alone. -/
theorem Formed.switchToBlock (h : cfg.Formed) (hblock : cfg.Open ∨ cfg.Closed)
    (hempty : cfg.blocks b = []) (hne : cfg.insertBlock ≠ b) :
    (cfg.switchToBlock b).Formed ∧ (cfg.switchToBlock b).Open := by
  -- the function with its insertion block closed
  obtain ⟨cfg', hcfg', hinsert, hcheck, hformed, hclosed, hempty'⟩ : ∃ cfg' : Cfg,
      cfg.switchToBlock b = cfg'.setInsertPoint b ∧ cfg'.insertBlock = cfg.insertBlock ∧
        cfg'.nextCheck = cfg.nextCheck ∧ cfg'.Formed ∧ cfg'.Closed ∧ cfg'.blocks b = [] := by
    rcases hblock with hopen | hclosed
    · refine ⟨cfg.append (.term (.br b)), ?_, rfl, rfl, h.append, hopen.close _, ?_⟩
      · rw [Cfg.switchToBlock, hopen.hasTerminator]
        rfl
      · rw [append_blocks_of_ne hne.symm, hempty]
    · refine ⟨cfg, ?_, rfl, rfl, h, hclosed, hempty⟩
      rw [Cfg.switchToBlock, hclosed.hasTerminator]
      rfl
  rw [hcfg']
  refine ⟨⟨fun b' hb' => ?_, fun b' hb' => ?_⟩, ?_⟩
  · by_cases hold : b' = cfg'.insertBlock
    · rw [hold]
      exact .inr hclosed
    · exact hformed.elsewhere b' hold
  · have hcreated : cfg'.Created b' := by
      cases b' <;> exact hb'
    rcases hformed.created b' hcreated with hnil | heq
    · exact .inl hnil
    · rw [← heq]
      exact .inl hclosed.ne_nil
  · rw [Open]
    exact hempty' ▸ .nil

end Cfg

/-! ### The scan -/

section Scan

variable {stack : StackFrame} {jumps : JumpTables} {st st' : BuilderState}
  {ins : BytecodeInstruction}

/-- **One step of the scan** leaves an open block, or a closed one if the instruction ends its
block. -/
theorem translateInstruction_formed (hjumps : jumps.Labelled)
    (hrun : Runs (translateInstruction stack jumps ins) st () st') (hfresh : st.cfg.Fresh)
    (hlabels : st.cfg.LabelsFresh ins.offset) (hformed : st.cfg.Formed)
    (hblock : st.cfg.Open ∨ st.cfg.Closed ∧ jumps.HasLabel ins.offset) :
    st'.cfg.Formed ∧ (if ins.bc.endsBlock = true then st'.cfg.Closed else st'.cfg.Open) := by
  obtain ⟨-, -, t, e, hcode, -, hcfg, -⟩ := runs_translateInstruction hrun
  have hlabel : ∀ b, jumps.jumpMap ins.offset = some b → b = .label ins.offset :=
    hjumps ins.offset
  have henter : (st.cfg.enterLabel (jumps.jumpMap ins.offset)).Formed ∧
      (st.cfg.enterLabel (jumps.jumpMap ins.offset)).Open := by
    cases hmap : jumps.jumpMap ins.offset with
    | none =>
        rcases hblock with hopen | ⟨-, hhas⟩
        · exact ⟨hformed, hopen⟩
        · rw [JumpTables.HasLabel, hmap] at hhas
          exact absurd hhas Bool.false_ne_true
    | some b =>
        obtain rfl := hlabel b hmap
        obtain ⟨hempty, hne⟩ := hlabels ins.offset (Int.le_refl _)
        exact hformed.switchToBlock (hblock.imp_right And.left) hempty hne
  obtain ⟨hformed₁, hopen₁⟩ := henter
  have hfresh₁ := (Cfg.enterLabel_fresh hlabel hfresh hlabels).1
  obtain ⟨hformed₂, hopen₂⟩ := Cfg.foldl_place_formed e.out
    (@Cfg.Formed.append _ (.marker ins.offset) hformed₁) hfresh₁.append (hopen₁.append rfl)
  have hends := (translateOpcode_endsWith hcode).isSome_iff
  rw [hcfg]
  cases t with
  | none =>
      rw [if_neg fun hbc => absurd (hends.mpr hbc) Bool.false_ne_true]
      exact ⟨hformed₂, hopen₂⟩
  | some t =>
      rw [if_pos (hends.mp rfl)]
      exact ⟨hformed₂.append, hopen₂.close t⟩

/-- **A scan keeps the blocks formed**; its last instruction tells whether the last block is closed. By
induction on the bytecode. -/
theorem forM_translateInstruction_formed (bytecode : List BytecodeInstruction) {start : ℕ}
    (hjumps : jumps.Labelled) (hwalked : WalkedFrom start bytecode)
    (hclosers : ClosersLabelled jumps bytecode)
    (hrun : Runs (bytecode.forM (translateInstruction stack jumps)) st () st')
    (hfresh : st.cfg.Fresh) (hlabels : st.cfg.LabelsFresh start) (hformed : st.cfg.Formed)
    (hblock : st.cfg.Open ∨
      st.cfg.Closed ∧ ∀ first ∈ bytecode.head?, jumps.HasLabel first.offset) :
    st'.cfg.Formed ∧
      ∀ last ∈ bytecode.getLast?, last.bc.endsBlock = true → st'.cfg.Closed := by
  induction bytecode generalizing start st with
  | nil =>
      rw [runs_forM_nil] at hrun
      rw [hrun]
      exact ⟨hformed, fun last hlast => absurd hlast (by simp)⟩
  | cons ins rest ih =>
      obtain ⟨rfl, hsize, hrest⟩ := hwalked
      obtain ⟨st₁, hins, hrun⟩ := runs_forM_cons.mp hrun
      obtain ⟨hformed₁, hblock₁⟩ := translateInstruction_formed hjumps hins hfresh hlabels hformed
        (hblock.imp_right fun h => ⟨h.1, h.2 ins rfl⟩)
      obtain ⟨hfresh₁, hlabels₁⟩ := translateInstruction_fresh hjumps hins hfresh hlabels hsize
      have hblock₂ : st₁.cfg.Open ∨
          st₁.cfg.Closed ∧ ∀ first ∈ rest.head?, jumps.HasLabel first.offset := by
        by_cases hends : ins.bc.endsBlock = true
        · rw [if_pos hends] at hblock₁
          refine .inr ⟨hblock₁, fun first hfirst => ?_⟩
          exact (List.isChain_cons.mp hclosers).1 first hfirst hends
        · rw [if_neg hends] at hblock₁
          exact .inl hblock₁
      obtain ⟨hformed', hlast⟩ := ih hrest hclosers.tail hrun hfresh₁ hlabels₁ hformed₁ hblock₂
      refine ⟨hformed', fun last hmem hends => ?_⟩
      cases rest with
      | nil =>
          obtain rfl : ins = last := by simpa using hmem
          rw [runs_forM_nil] at hrun
          rw [if_pos hends] at hblock₁
          rwa [hrun]
      | cons next rest => exact hlast last (by simpa using hmem) hends

end Scan

end Asllvm
