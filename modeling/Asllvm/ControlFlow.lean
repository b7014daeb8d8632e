import Asllvm.Placement

/-!
# Control Flow Through the Emitted Function

The blocks of a translated function as a graph of positions, and the places of the bytecode's
instructions in it.

* `Flow` — control may pass from a position to another one.
* `Quiet` — control may pass without starting an instruction, that is, without passing a marker.
* `NextInstruction` — the instruction whose code is entered next.
* `Path` — a whole path, with the instructions it passes.

A check splits a block in two, but the block it leaves through only returns; so between the
start and the end of the code of an instruction control goes one way.

## Main results

* `CodeAt.quiet_iff` — code is run through, checks included.
* `exists_splitAt` — a translated bytecode can be split at each of its instructions.
* `translateBytecode_marked` — a scan marks every instruction once, and puts code under the labels
  of instructions only.
-/

open StateExcept

namespace Asllvm

/-! ### Positions and paths -/

/-- Control may pass from one position to another. -/
inductive Flow (F : BlockId → List Item) : Position → Position → Prop
  | next {p : Position} {item : Item} :
      itemAt F p = some item → item.isTerminator = false → Flow F p p.next
  | jump {p : Position} {t : Terminator} {b : BlockId} :
      itemAt F p = some (.term t) → b ∈ t.successors → Flow F p (b, 0)

/-- An instruction starts at the position. -/
def AtMarker (F : BlockId → List Item) (p : Position) : Prop :=
  ∃ o, itemAt F p = some (.marker o)

/-- Control may pass from one position to another without starting an instruction. -/
inductive Quiet (F : BlockId → List Item) : Position → Position → Prop
  | refl (p : Position) : Quiet F p p
  | step {p p' p'' : Position} :
      ¬ AtMarker F p → Flow F p p' → Quiet F p' p'' → Quiet F p p''

/-- From the instruction that starts at `p`, control may come to the one that starts at `p'`
next. -/
def NextInstruction (F : BlockId → List Item) (p p' : Position) : Prop :=
  Quiet F p.next p' ∧ AtMarker F p'

/-- A path, and the offsets of the instructions it passes. -/
inductive Path (F : BlockId → List Item) : Position → List ℕ → Position → Prop
  | refl (p : Position) : Path F p [] p
  | marker {p p' : Position} {o : ℕ} {os : List ℕ} :
      itemAt F p = some (.marker o) → Path F p.next os p' → Path F p (o :: os) p'
  | quiet {p p' p'' : Position} {os : List ℕ} :
      ¬ AtMarker F p → Flow F p p' → Path F p' os p'' → Path F p os p''

variable {F : BlockId → List Item} {p p' q r : Position}

/-- A path to an instruction either reaches it without passing another one, or passes one that
comes first. -/
theorem Path.cases_marker {os : List ℕ} (h : Path F p os p') :
    (os = [] ∧ Quiet F p p') ∨
      ∃ o os' p₁, os = o :: os' ∧ Quiet F p p₁ ∧ itemAt F p₁ = some (.marker o) ∧
        Path F p₁.next os' p' := by
  induction h with
  | refl p => exact .inl ⟨rfl, .refl p⟩
  | marker hitem hrest => exact .inr ⟨_, _, _, rfl, .refl _, hitem, hrest⟩
  | quiet hquiet hflow _ ih =>
      rcases ih with ⟨hnil, hq⟩ | ⟨o, os', p₁, hcons, hq, hitem, hpath⟩
      · exact .inl ⟨hnil, .step hquiet hflow hq⟩
      · exact .inr ⟨o, os', p₁, hcons, .step hquiet hflow hq, hitem, hpath⟩

/-- A path goes on after an instruction. -/
theorem Path.instr {i : Instr} {os : List ℕ} (hitem : itemAt F p = some (.instr i))
    (h : Path F p.next os p') : Path F p os p' :=
  .quiet (fun ⟨_, ho⟩ => absurd (hitem.symm.trans ho) (by simp)) (.next hitem rfl) h

/-- A path goes on at a successor of a terminator. -/
theorem Path.jump {t : Terminator} {b : BlockId} {os : List ℕ}
    (hitem : itemAt F p = some (.term t)) (hb : b ∈ t.successors) (h : Path F (b, 0) os p') :
    Path F p os p' :=
  .quiet (fun ⟨_, ho⟩ => absurd (hitem.symm.trans ho) (by simp)) (.jump hitem hb) h

/-- From where nothing passes, only the position itself is reached. -/
theorem Quiet.eq_of_no_flow (h : Quiet F p p') (hno : ∀ p'', ¬ Flow F p p'') : p = p' := by
  cases h with
  | refl => rfl
  | step _ hflow _ => exact absurd hflow (hno _)

/-- An instruction is reached from itself only. -/
theorem Quiet.eq_of_atMarker (h : Quiet F p p') (hp : AtMarker F p) : p = p' := by
  cases h with
  | refl => rfl
  | step hquiet _ _ => exact absurd hp hquiet

/-- From a position with one way on, an instruction is reached iff it is from there. -/
theorem quiet_iff_of_flow (hnot : ¬ AtMarker F p) (hp' : AtMarker F p')
    (hflow : ∀ p'', Flow F p p'' ↔ p'' = q) : Quiet F p p' ↔ Quiet F q p' := by
  constructor
  · intro h
    cases h with
    | refl => exact absurd hp' hnot
    | step _ hstep hrest => rwa [(hflow _).mp hstep] at hrest
  · exact fun h => .step hnot ((hflow q).mpr rfl) h

/-- Past an instruction there is one way. -/
theorem flow_instr_iff {item : Item} (hitem : itemAt F p = some item)
    (hterm : item.isTerminator = false) : Flow F p p' ↔ p' = p.next := by
  constructor
  · intro h
    cases h with
    | next => rfl
    | jump hterm' _ =>
        rw [hitem, Option.some.injEq] at hterm'
        rw [hterm'] at hterm
        exact Bool.noConfusion hterm
  · rintro rfl
    exact .next hitem hterm

/-- Past a terminator there are its successors. -/
theorem flow_term_iff {t : Terminator} (hitem : itemAt F p = some (.term t)) :
    Flow F p p' ↔ ∃ b ∈ t.successors, p' = (b, 0) := by
  constructor
  · intro h
    cases h with
    | next hitem' hterm =>
        rw [hitem, Option.some.injEq] at hitem'
        rw [← hitem'] at hterm
        exact Bool.noConfusion hterm
    | jump hitem' hb =>
        rw [hitem, Option.some.injEq, Item.term.injEq] at hitem'
        exact ⟨_, hitem' ▸ hb, rfl⟩
  · rintro ⟨b, hb, rfl⟩
    exact .jump hitem hb

theorem not_atMarker_of_itemAt {item : Item} (hitem : itemAt F p = some item)
    (hmarker : item.isMarker = false) : ¬ AtMarker F p := by
  rintro ⟨o, ho⟩
  rw [hitem, Option.some.injEq] at ho
  rw [ho] at hmarker
  exact Bool.noConfusion hmarker

/-- Past a terminator, an instruction is reached iff it is from one of the successors. -/
theorem quiet_term_iff {t : Terminator} (hitem : itemAt F p = some (.term t))
    (hp' : AtMarker F p') : Quiet F p p' ↔ ∃ b ∈ t.successors, Quiet F (b, 0) p' := by
  have hnot : ¬ AtMarker F p := not_atMarker_of_itemAt hitem rfl
  constructor
  · intro h
    cases h with
    | refl => exact absurd hp' hnot
    | step _ hflow hrest =>
        obtain ⟨b, hb, rfl⟩ := (flow_term_iff hitem).mp hflow
        exact ⟨b, hb, hrest⟩
  · rintro ⟨b, hb, h⟩
    exact .step hnot (.jump hitem hb) h

/-- **Code is run through**: an instruction is reached from the start of some pieces iff it is
from their end. The block a check leaves through reaches none. -/
theorem CodeAt.quiet_iff {ps : List Piece} (h : CodeAt .Implementation F p ps q)
    (hp' : AtMarker F p') :
    Quiet F p p' ↔ Quiet F q p' := by
  induction h with
  | nil => exact Iff.rfl
  | instr hitem _ ih =>
      rw [← ih]
      exact quiet_iff_of_flow (not_atMarker_of_itemAt hitem rfl) hp'
        fun p'' => flow_instr_iff hitem rfl
  | check hitem hblock _ ih =>
      have hret := itemAt_of_prefix hblock (k := 0) rfl
      rw [← ih, quiet_term_iff hitem hp']
      constructor
      · rintro ⟨b, hb, h⟩
        rcases List.mem_pair.mp hb with rfl | rfl
        · obtain ⟨b', hb', -⟩ := (quiet_term_iff hret hp').mp h
          exact absurd hb' List.not_mem_nil
        · exact h
      · exact fun h => ⟨_, List.mem_pair.mpr (.inr rfl), h⟩

/-! ### Open positions -/

/-- No terminator lies before the position in its block. -/
def OpenAt (F : BlockId → List Item) (p : Position) : Prop :=
  ∀ n < p.2, ∀ item, itemAt F (p.1, n) = some item → item.isTerminator = false

theorem OpenAt.start (b : BlockId) : OpenAt F (b, 0) := fun _ hn => absurd hn (Nat.not_lt_zero _)

theorem OpenAt.next {item : Item} (h : OpenAt F p) (hitem : itemAt F p = some item)
    (hterm : item.isTerminator = false) : OpenAt F p.next := by
  intro n hn item' hitem'
  rcases Nat.lt_succ_iff_lt_or_eq.mp hn with hlt | rfl
  · exact h n hlt item' hitem'
  · obtain rfl := Option.some.inj (hitem.symm.trans hitem')
    exact hterm

/-- The end of some pieces is open if their start is. -/
theorem CodeAt.openAt {type : GeneratedFunctionType} {ps : List Piece}
    (h : CodeAt type F p ps q) (hp : OpenAt F p) : OpenAt F q := by
  induction h with
  | nil => exact hp
  | instr hitem _ ih => exact ih (hp.next hitem rfl)
  | check _ _ _ ih => exact ih (.start _)

/-! ### The markers and the labels of a scan -/

/-- There is a label at the offset, and it is that of an instruction. -/
def LabelledInstruction (jumps : JumpTables) (bytecode : List BytecodeInstruction) (l : ℤ) : Prop :=
  ∃ ins ∈ bytecode, (ins.offset : ℤ) = l ∧ jumps.HasLabel l

namespace Cfg

variable {cfg : Cfg} {item : Item} {o : ℕ}

/-- An item of a block that was appended to is an old one, or the one appended. -/
theorem itemAt_append {item' : Item} (h : itemAt (cfg.append item).blocks p = some item') :
    itemAt cfg.blocks p = some item' ∨ p = cfg.position ∧ item' = item := by
  obtain ⟨b, n⟩ := p
  by_cases hb : b = cfg.insertBlock
  · subst hb
    rw [itemAt, append_blocks_self] at h
    rcases Nat.lt_trichotomy n (cfg.blocks cfg.insertBlock).length with hlt | heq | hgt
    · rw [List.getElem?_append_left hlt] at h
      exact .inl h
    · rw [heq, List.getElem?_append_right (Nat.le_refl _), Nat.sub_self] at h
      exact .inr ⟨by rw [heq]; rfl, (Option.some.inj h).symm⟩
    · rw [List.getElem?_eq_none (by simp; omega)] at h
      exact absurd h (Option.some_ne_none item').symm
  · rw [itemAt, append_blocks_of_ne hb] at h
    exact .inl h

/-- The markers of `cfg'` are those of `cfg`. -/
def SameMarkers (cfg cfg' : Cfg) : Prop :=
  ∀ p o, itemAt cfg'.blocks p = some (.marker o) → itemAt cfg.blocks p = some (.marker o)

/-- Code under a label, or about to be, is under one of the labels of `cfg`. -/
def SameLabels (cfg cfg' : Cfg) : Prop :=
  ∀ l, cfg'.blocks (.label l) ≠ [] ∨ cfg'.insertBlock = .label l →
    cfg.blocks (.label l) ≠ [] ∨ cfg.insertBlock = .label l

theorem SameMarkers.trans {cfg' cfg'' : Cfg} (h : SameMarkers cfg cfg')
    (h' : SameMarkers cfg' cfg'') : SameMarkers cfg cfg'' :=
  fun p o ho => h p o (h' p o ho)

theorem SameLabels.trans {cfg' cfg'' : Cfg} (h : SameLabels cfg cfg')
    (h' : SameLabels cfg' cfg'') : SameLabels cfg cfg'' :=
  fun l hl => h l (h' l hl)

theorem sameMarkers_append (hitem : item.isMarker = false) :
    SameMarkers cfg (cfg.append item) := by
  intro p o ho
  rcases itemAt_append ho with h | ⟨-, rfl⟩
  · exact h
  · exact Bool.noConfusion hitem

theorem sameLabels_append : SameLabels cfg (cfg.append item) := by
  rintro l (hl | hl)
  · by_cases hb : BlockId.label l = cfg.insertBlock
    · exact .inr hb.symm
    · rw [append_blocks_of_ne hb] at hl
      exact .inl hl
  · exact .inr hl

/-- Placing a piece places no marker, and nothing under a new label. -/
theorem same_place (hfresh : cfg.Fresh) (piece : Piece) :
    SameMarkers cfg (cfg.place .Implementation piece) ∧
      SameLabels cfg (cfg.place .Implementation piece) := by
  cases piece with
  | instr i => exact ⟨sameMarkers_append rfl, sameLabels_append⟩
  | check value state =>
      constructor
      · intro p o ho
        rw [itemAt, place, emitCheckBoolean_blocks hfresh] at ho
        obtain ⟨b, n⟩ := p
        by_cases hb : b = .setVmException cfg.nextCheck
        · subst hb
          rw [Function.update_self, exceptionBlock] at ho
          cases n <;> simp at ho
        · rw [Function.update_of_ne hb] at ho
          exact sameMarkers_append rfl (b, n) o ho
      · rintro l (hl | hl)
        · rw [place, emitCheckBoolean_blocks hfresh, Function.update_of_ne (by simp)] at hl
          exact sameLabels_append l (.inl hl)
        · simp [place, emitCheckBoolean, setInsertPoint] at hl

theorem same_foldl_place (ps : List Piece) (hfresh : cfg.Fresh) :
    SameMarkers cfg (ps.foldl (Cfg.place .Implementation) cfg) ∧
      SameLabels cfg (ps.foldl (Cfg.place .Implementation) cfg) := by
  induction ps generalizing cfg with
  | nil => exact ⟨fun _ _ h => h, fun _ h => h⟩
  | cons piece ps ih =>
      obtain ⟨hmarkers, hlabels⟩ := same_place hfresh piece
      obtain ⟨hmarkers', hlabels'⟩ := ih (hfresh.place piece)
      exact ⟨hmarkers.trans hmarkers', hlabels.trans hlabels'⟩

theorem same_close (t : Option Terminator) :
    SameMarkers cfg (cfg.close t) ∧ SameLabels cfg (cfg.close t) := by
  cases t with
  | none => exact ⟨fun _ _ h => h, fun _ h => h⟩
  | some t => exact ⟨sameMarkers_append rfl, sameLabels_append⟩

/-- Entering a label places no marker; what is under a label afterwards was before, or is under the
label entered. -/
theorem same_enterLabel (label : Option BlockId) :
    SameMarkers cfg (cfg.enterLabel label) ∧
      ∀ l, (cfg.enterLabel label).blocks (.label l) ≠ [] ∨
          (cfg.enterLabel label).insertBlock = .label l →
        (cfg.blocks (.label l) ≠ [] ∨ cfg.insertBlock = .label l) ∨ label = some (.label l) := by
  cases label with
  | none => exact ⟨fun _ _ h => h, fun _ h => .inl h⟩
  | some b =>
      have hblocks : ∃ cfg', (cfg.enterLabel (some b)).blocks = cfg'.blocks ∧
          SameMarkers cfg cfg' ∧ SameLabels cfg cfg' := by
        by_cases hterm : cfg.hasTerminator = true
        · exact ⟨cfg, by simp [enterLabel, switchToBlock, hterm, setInsertPoint],
            fun _ _ h => h, fun _ h => h⟩
        · exact ⟨cfg.append (.term (.br b)),
            by simp [enterLabel, switchToBlock, hterm, setInsertPoint],
            sameMarkers_append rfl, sameLabels_append⟩
      obtain ⟨cfg', hcfg', hmarkers, hlabels⟩ := hblocks
      refine ⟨fun p o ho => hmarkers p o ?_, fun l hl => ?_⟩
      · rwa [itemAt, hcfg'] at ho
      · rcases hl with hl | hl
        · rw [hcfg'] at hl
          exact .inl (hlabels l (.inl hl))
        · exact .inr (congrArg some hl)

/-- **The marks of a scan of `bytecode` up to an offset**: every marker is that of an instruction
below it, no instruction is marked twice, and code is only under the labels of instructions. -/
structure Marked (jumps : JumpTables) (bytecode : List BytecodeInstruction) (cfg : Cfg)
    (bound : ℕ) : Prop where
  known : ∀ p o, itemAt cfg.blocks p = some (.marker o) →
    o < bound ∧ ∃ ins ∈ bytecode, ins.offset = o
  unique : ∀ p p' o, itemAt cfg.blocks p = some (.marker o) →
    itemAt cfg.blocks p' = some (.marker o) → p = p'
  labels : ∀ l, cfg.blocks (.label l) ≠ [] ∨ cfg.insertBlock = .label l →
    LabelledInstruction jumps bytecode l

variable {jumps : JumpTables} {bytecode : List BytecodeInstruction} {bound : ℕ}

theorem Marked.mono {bound' : ℕ} (h : cfg.Marked jumps bytecode bound) (hle : bound ≤ bound') :
    cfg.Marked jumps bytecode bound' where
  known p o ho := ⟨Nat.lt_of_lt_of_le (h.known p o ho).1 hle, (h.known p o ho).2⟩
  unique := h.unique
  labels := h.labels

theorem Marked.of_same {cfg' : Cfg} (h : cfg.Marked jumps bytecode bound)
    (hmarkers : SameMarkers cfg cfg') (hlabels : SameLabels cfg cfg') :
    cfg'.Marked jumps bytecode bound where
  known p o ho := h.known p o (hmarkers p o ho)
  unique p p' o ho ho' := h.unique p p' o (hmarkers p o ho) (hmarkers p' o ho')
  labels l hl := h.labels l (hlabels l hl)

/-- Entering the label of an instruction. -/
theorem Marked.enterLabel {label : Option BlockId} (h : cfg.Marked jumps bytecode bound)
    (hlabel : ∀ l, label = some (.label l) → LabelledInstruction jumps bytecode l) :
    (cfg.enterLabel label).Marked jumps bytecode bound := by
  obtain ⟨hmarkers, hlabels⟩ := @same_enterLabel cfg label
  refine ⟨fun p o ho => h.known p o (hmarkers p o ho),
    fun p p' o ho ho' => h.unique p p' o (hmarkers p o ho) (hmarkers p' o ho'), fun l hl => ?_⟩
  rcases hlabels l hl with hl' | hl'
  · exact h.labels l hl'
  · exact hlabel l hl'

/-- Marking the next instruction. -/
theorem Marked.append_marker {ins : BytecodeInstruction} (hins : ins ∈ bytecode)
    (h : cfg.Marked jumps bytecode ins.offset) :
    (cfg.append (.marker ins.offset)).Marked jumps bytecode (ins.offset + 1) := by
  refine ⟨fun p o ho => ?_, fun p p' o ho ho' => ?_,
    fun l hl => h.labels l (sameLabels_append l hl)⟩
  · rcases itemAt_append ho with hold | ⟨-, hnew⟩
    · exact ⟨Nat.lt_succ_of_lt (h.known p o hold).1, (h.known p o hold).2⟩
    · rw [Item.marker.injEq] at hnew
      exact ⟨by omega, ins, hins, hnew.symm⟩
  · rcases itemAt_append ho with hold | ⟨rfl, hnew⟩ <;>
      rcases itemAt_append ho' with hold' | ⟨rfl, hnew'⟩
    · exact h.unique p p' o hold hold'
    · rw [Item.marker.injEq] at hnew'
      exact absurd (h.known p o hold).1 (by omega)
    · rw [Item.marker.injEq] at hnew
      exact absurd (h.known p' o hold').1 (by omega)
    · rfl

end Cfg

section Scan

variable {stack : StackFrame} {jumps : JumpTables} {st st' : BuilderState}
  {bytecode : List BytecodeInstruction}

/-- One step of the scan marks its instruction. -/
theorem translateInstruction_marked {ins : BytecodeInstruction} (hjumps : jumps.Labelled)
    (hmem : ins ∈ bytecode) (hrun : Runs (translateInstruction stack jumps ins) st () st') (hfresh : st.cfg.Fresh)
    (hlabels : st.cfg.LabelsFresh ins.offset) (h : st.cfg.Marked jumps bytecode ins.offset) :
    st'.cfg.Marked jumps bytecode (ins.offset + 1) := by
  obtain ⟨-, -, t, e, -, -, hcfg, -⟩ := runs_translateInstruction hrun
  have hlabel : ∀ b, jumps.jumpMap ins.offset = some b → b = .label ins.offset :=
    hjumps ins.offset
  have henter : (st.cfg.enterLabel (jumps.jumpMap ins.offset)).Marked jumps bytecode ins.offset := by
    refine h.enterLabel fun l hl => ⟨ins, hmem, BlockId.label.inj (hlabel _ hl).symm, ?_⟩
    rw [BlockId.label.inj (hlabel _ hl), JumpTables.HasLabel, hl]
    rfl
  obtain ⟨hmarkers, hlabels'⟩ := Cfg.same_foldl_place e.out
    (@Cfg.Fresh.append _ (.marker ins.offset) (Cfg.enterLabel_fresh hlabel hfresh hlabels).1)
  obtain ⟨hmarkers', hlabels''⟩ := @Cfg.same_close (e.out.foldl (Cfg.place .Implementation)
    ((st.cfg.enterLabel (jumps.jumpMap ins.offset)).append (.marker ins.offset))) t
  rw [hcfg]
  exact ((henter.append_marker hmem).of_same hmarkers hlabels').of_same hmarkers' hlabels''

/-- One step of the scan keeps the invariants of the builder. -/
theorem translateInstruction_fresh {ins : BytecodeInstruction} (hjumps : jumps.Labelled)
    (hrun : Runs (translateInstruction stack jumps ins) st () st') (hfresh : st.cfg.Fresh)
    (hlabels : st.cfg.LabelsFresh ins.offset) (hsize : 0 < ins.info.size) :
    st'.cfg.Fresh ∧ st'.cfg.LabelsFresh ins.next := by
  obtain ⟨hfresh', hlabels', -⟩ :=
    translateInstruction_instructionAt (s := st.emit) hjumps rfl hrun hfresh hlabels
  refine ⟨hfresh', fun l hl => hlabels' l ?_⟩
  rw [BytecodeInstruction.next] at hl
  omega

/-- **The scan of a bytecode** keeps the invariants of the builder and marks its instructions. -/
theorem forM_translateInstruction_marked (pre : List BytecodeInstruction) {start : ℕ}
    (hjumps : jumps.Labelled) (hwalked : WalkedFrom start pre) (hmem : pre ⊆ bytecode)
    (hrun : Runs (pre.forM (translateInstruction stack jumps)) st () st')
    (hfresh : st.cfg.Fresh) (hlabels : st.cfg.LabelsFresh start)
    (h : st.cfg.Marked jumps bytecode start) :
    ∃ bound : ℕ, st'.cfg.Fresh ∧ st'.cfg.LabelsFresh bound ∧
      st'.cfg.Marked jumps bytecode bound ∧
      ∀ post, WalkedFrom start (pre ++ post) → WalkedFrom bound post := by
  induction pre generalizing start st with
  | nil =>
      rw [runs_forM_nil] at hrun
      subst hrun
      exact ⟨start, hfresh, hlabels, h, fun _ hpost => hpost⟩
  | cons ins rest ih =>
      obtain ⟨rfl, hsize, hrest⟩ := hwalked
      obtain ⟨st₁, hins, hrun⟩ := runs_forM_cons.mp hrun
      have hmarked := translateInstruction_marked hjumps (hmem List.mem_cons_self) hins hfresh
        hlabels h
      obtain ⟨hfresh₁, hlabels₁⟩ := translateInstruction_fresh hjumps hins hfresh hlabels hsize
      have hle : ins.offset + 1 ≤ ins.next := by
        rw [BytecodeInstruction.next]
        omega
      obtain ⟨bound, hfresh', hlabels', hmarked', hwalked'⟩ :=
        ih hrest (List.subset_of_cons_subset hmem) hrun hfresh₁ hlabels₁ (hmarked.mono hle)
      exact ⟨bound, hfresh', hlabels', hmarked', fun post hpost => hwalked' post hpost.2.2⟩

end Scan

/-! ### A translated bytecode, split at an instruction -/

/-- `st` is the state of the builder when the scan has got through the instructions `pre`. -/
def ScannedTo (context : FunctionContext) (jumps : JumpTables) (pre : List BytecodeInstruction)
    (stack : StackFrame) (st : BuilderState) : Prop :=
  ∃ s₀, Runs (emitAllocateLocalStructures context) BuilderState.new.emit stack s₀ ∧
    Runs (pre.forM (translateInstruction stack jumps)) (.afterLocals s₀) () st

theorem ScannedTo.det {context : FunctionContext} {jumps : JumpTables}
    {pre : List BytecodeInstruction} {stack stack' : StackFrame} {st st' : BuilderState}
    (h : ScannedTo context jumps pre stack st) (h' : ScannedTo context jumps pre stack' st') :
    stack = stack' ∧ st = st' := by
  obtain ⟨s₀, hlocal, hrun⟩ := h
  obtain ⟨s₀', hlocal', hrun'⟩ := h'
  obtain ⟨rfl, rfl⟩ := hlocal.det hlocal'
  exact ⟨rfl, (hrun.det hrun').2⟩

/-- **A translated bytecode, split at the instruction `ins`**: the builder was in `st` before it
and in `st'` after it; its marker is at `p`, its pieces end at `q`, and `t` is its terminator. -/
structure SplitAt (context : FunctionContext) (T : Translation) (pre : List BytecodeInstruction)
    (ins : BytecodeInstruction) (post : List BytecodeInstruction) (st st' : BuilderState)
    (p : Position) (t : Option Terminator) (s' : EmitState) (q : Position) : Prop where
  scanned : ScannedTo context T.jumps pre T.stack st
  scanned' : ScannedTo context T.jumps (pre ++ [ins]) T.stack st'
  prologue : ∃ s₀ r₀ s, CodeAt .Implementation T.cfg.blocks (.entry, 0) s₀.out r₀ ∧
    LaidOut T.stack T.jumps T.cfg.blocks s₀ r₀ pre s st.cfg.position
  here : InstructionAt T.stack T.jumps T.cfg.blocks ins st.emit st.cfg.position p t s' q
    st'.cfg.position
  emit : { s' with out := [] } = { st'.emit with out := [] }
  rest : ∃ s₁, LaidOut T.stack T.jumps T.cfg.blocks s' st'.cfg.position post s₁ T.cfg.position ∧
    (T.stack.config.assertions = true → s₁.stackPointer = T.stack.variableSpace)

section Translated

variable {context : FunctionContext} {bytecode pre post : List BytecodeInstruction}
  {ins : BytecodeInstruction} {T : Translation}

/-- The invariants of the builder when the scan has got through some instructions. -/
theorem ScannedTo.marked {stack : StackFrame} {jumps : JumpTables} {st : BuilderState}
    (hjumps : jumps.Labelled) (hwalked : Walked (pre ++ post))
    (h : ScannedTo context jumps pre stack st) :
    ∃ bound : ℕ, st.cfg.Fresh ∧ st.cfg.LabelsFresh bound ∧
      st.cfg.Marked jumps (pre ++ post) bound ∧ WalkedFrom bound post := by
  obtain ⟨s₀, -, hrun⟩ := h
  obtain ⟨hfresh, hlabels⟩ := Cfg.foldl_place_fresh s₀.out Cfg.new_fresh Cfg.new_labelsFresh
  obtain ⟨hmarkers, hsame⟩ := Cfg.same_foldl_place s₀.out Cfg.new_fresh
  have hnew : Cfg.new.Marked jumps (pre ++ post) 0 :=
    ⟨fun p o ho => by simp [Cfg.new, itemAt] at ho, fun p p' o ho => by simp [Cfg.new, itemAt] at ho,
      fun l hl => by simp [Cfg.new] at hl⟩
  have hpre : WalkedFrom 0 pre := hwalked.of_append
  obtain ⟨bound, hfresh', hlabels', hmarked, hwalked'⟩ := forM_translateInstruction_marked pre hjumps
    hpre (List.subset_append_left _ _) hrun hfresh hlabels
    (hnew.of_same hmarkers hsame)
  exact ⟨bound, hfresh', hlabels', hmarked, hwalked' post hwalked⟩

/-- **Every translated bytecode can be split** at each of its instructions. -/
theorem exists_splitAt (hwalked : Walked (pre ++ ins :: post))
    (h : translateBytecode context (pre ++ ins :: post) = .ok T) :
    ∃ st st' p t s' q, SplitAt context T pre ins post st st' p t s' q := by
  obtain ⟨hT, s₀, st₁, hlocal, hscan, hcfg, -, hempty⟩ := runs_translateBytecode h
  have hjumps : T.jumps.Labelled := hT ▸ preprocess_labelled _
  obtain ⟨st, hpre, hrest⟩ := runs_forM_append.mp hscan
  obtain ⟨st', hins, hpost⟩ := runs_forM_cons.mp hrest
  have hscanned : ScannedTo context T.jumps pre T.stack st := ⟨s₀, hlocal, hpre⟩
  have hscanned' : ScannedTo context T.jumps (pre ++ [ins]) T.stack st' :=
    ⟨s₀, hlocal, runs_forM_append.mpr ⟨st, hpre, runs_forM_cons.mpr ⟨st', hins, by simp⟩⟩⟩
  obtain ⟨bound, hfresh, hlabels, -, hbound, hsize, hwalkedPost⟩ := hscanned.marked hjumps hwalked
  rw [← hbound] at hlabels
  obtain ⟨-, -, s', hs', hat⟩ :=
    translateInstruction_instructionAt hjumps rfl hins hfresh hlabels
  obtain ⟨hfresh', hlabels'⟩ := translateInstruction_fresh hjumps hins hfresh hlabels hsize
  obtain ⟨s₂, hs₂, hlaidPost⟩ := forM_translateInstruction_laidOut post hjumps hwalkedPost hs' hpost
    hfresh' hlabels'
  obtain ⟨hfresh₀, hlabels₀⟩ := Cfg.foldl_place_fresh s₀.out Cfg.new_fresh Cfg.new_labelsFresh
  obtain ⟨s₃, -, hlaidPre⟩ := forM_translateInstruction_laidOut (s := s₀) pre hjumps
    hwalked.of_append rfl hpre hfresh₀ hlabels₀
  obtain ⟨hinto', hpostLaid⟩ := hlaidPost T.cfg.blocks (hcfg ▸ fun b => List.prefix_refl _)
  obtain ⟨hinto, p, t, q, hhere⟩ := hat T.cfg.blocks hinto'
  obtain ⟨hinto₀, hpreLaid⟩ := hlaidPre T.cfg.blocks hinto
  rw [← hcfg] at hpostLaid
  refine ⟨st, st', p, t, s', q, hscanned, hscanned', ⟨s₀, _, s₃,
    (Cfg.foldl_place_codeAt s₀.out Cfg.new_fresh hinto₀).1, hpreLaid⟩, hhere, hs', s₂, hpostLaid,
    fun ha => ?_⟩
  have hsp : s₂.stackPointer = st₁.emit.stackPointer := (EmitState.mk.inj hs₂).1
  rw [hsp, hempty ha]

/-- **The marks of a translated function**: each marker is that of an instruction and is there
once, and there is code only under the labels of instructions. -/
theorem translateBytecode_marked (hwalked : Walked bytecode)
    (h : translateBytecode context bytecode = .ok T) :
    ∃ bound, T.cfg.Marked T.jumps bytecode bound := by
  obtain ⟨hT, s₀, st₁, hlocal, hscan, hcfg, -, -⟩ := runs_translateBytecode h
  have hscanned : ScannedTo context T.jumps bytecode T.stack st₁ := ⟨s₀, hlocal, hscan⟩
  have hnil : Walked (bytecode ++ []) := by rwa [List.append_nil]
  obtain ⟨bound, -, -, hmarked, -⟩ := hscanned.marked (hT ▸ preprocess_labelled _) hnil
  rw [List.append_nil, ← hcfg] at hmarked
  exact ⟨bound, hmarked⟩

end Translated

/-! ### Instructions that more than one example has -/

/-- The return at a bytecode offset. -/
def retAt (offset : Nat) : BytecodeInstruction := ⟨[0], ⟨.RET, 1, 0xFFFF, by decide⟩, offset⟩

/-- A jump over `distance` dwords. -/
def jmpAt (distance : BitVec 32) (offset : Nat) : BytecodeInstruction :=
  ⟨[0, distance], ⟨.JMP, 2, 0, by decide⟩, offset⟩

/-- A call of the script function with an id. -/
def callAt (id : BitVec 32) (offset : Nat) : BytecodeInstruction :=
  ⟨[0, id], ⟨.CALL, 2, 0xFFFF, by decide⟩, offset⟩

/-- A call of the native function with an id. -/
def callSysAt (id : BitVec 32) (offset : Nat) : BytecodeInstruction :=
  ⟨[0, id], ⟨.CALLSYS, 2, 0xFFFF, by decide⟩, offset⟩

/-- The number `7` is pushed. -/
def pshC4At (offset : Nat) : BytecodeInstruction := ⟨[0, 7], ⟨.PshC4, 2, 1, by decide⟩, offset⟩

/-- A pointer is popped. -/
def popPtrAt (offset : Nat) : BytecodeInstruction := ⟨[0], ⟨.PopPtr, 1, -2, by decide⟩, offset⟩

/-- The first variable is set. -/
def setV4At (value : BitVec 32) (offset : Nat) : BytecodeInstruction :=
  ⟨[0x10000, value], ⟨.SetV4, 2, 0, by decide⟩, offset⟩

/-- The variable that is the high half of `dword` goes to the value register. -/
def cpyVtoR4At (dword : BitVec 32) (offset : Nat) : BytecodeInstruction :=
  ⟨[dword], ⟨.CpyVtoR4, 1, 0, by decide⟩, offset⟩

/-- A division of variables. -/
def diviAt (dwords : List (BitVec 32)) (offset : Nat) : BytecodeInstruction :=
  ⟨dwords, ⟨.DIVi, 2, 0, by decide⟩, offset⟩

/-- The bytecode of an empty function. -/
def retBytecode : List BytecodeInstruction := [⟨[0], ⟨.RET, 1, 0xFFFF, by decide⟩, 0⟩]

/-! ### A loop -/

/-- A function that needs four variables, translated with assertions. -/
def loopContext : FunctionContext where
  engine := .ofFunctions []
  config := ⟨false, true⟩
  scriptFunction := .free 1 (.primitive .ttVoid) [] 4

/-- Two dwords are pushed and popped again, in a loop. -/
def loopBytecode : List BytecodeInstruction := [
  ⟨[0, 7], ⟨.PshC4, 2, 1, by decide⟩, 0⟩,
  ⟨[0, 7], ⟨.PshC4, 2, 1, by decide⟩, 2⟩,
  ⟨[0], ⟨.PopPtr, 1, -2, by decide⟩, 4⟩,
  ⟨[0, -7], ⟨.JZ, 2, 0, by decide⟩, 5⟩,
  ⟨[0], ⟨.RET, 1, 0xFFFF, by decide⟩, 7⟩]

theorem loopBytecode_walked : Walked loopBytecode := by
  simp [loopBytecode, WalkedFrom, BytecodeInstruction.next]

/-- The code of the loop: the local structures, and the block of its label. -/
def loopBlocks : List Item × List Item := (
  [.instr (.alloca .valueRegister 8), .instr (.alloca .objectRegister 8),
    .instr (.alloca .storage 32),
    .instr (.store .i64 (.const 0) (.frame .valueRegister 0)),
    .instr (.store .pvoid (.const 0) (.frame .objectRegister 0)),
    .instr (.memset (.frame .storage 0) 0 32), .term (.br (.label 0))],
  [.marker 0, .instr (.store .i32 (.const 7) (.frame .storage 12)),
    .marker 2, .instr (.store .i32 (.const 7) (.frame .storage 8)),
    .marker 4,
    .marker 5, .instr (.load 0 .i32 (.frame .valueRegister 0)),
    .instr (.icmp 1 .eq .i32 (.reg 0) (.const 0)),
    .term (.condBr (.reg 1) (.label 0) (.label 7))])

theorem translateBytecode_loop : ∃ T, translateBytecode loopContext loopBytecode = .ok T ∧
    (T.cfg.blocks .entry, T.cfg.blocks (.label 0)) = loopBlocks :=
  exists_ok_of_map (by decide +kernel)

end Asllvm
