import Asllvm.Activation

/-!
# The Code That Remains

Where an activation of an implementation can be. It is inside the pieces of the local structures or
of an instruction, with the rest of them ahead (`RemainsTo`), or at a place where control only passes
on to the next instruction (`AtRest`). A step leads from such a place to another one, so that a fact
about whole runs follows from what the pieces of each instruction do.

* `RemainsTo` — the pieces that lie ahead of a position, and nothing but a place at rest after them.
* `Advances` — a step that uses up the first of the pieces ahead.

## Main results

* `translateBytecode_entry_remainsTo`, `CodeOf.remainsTo` — what lies ahead at the entry of a function,
  and behind the marker of an instruction.
* `RemainsTo.next`, `RemainsTo.call` — what a step does to the pieces ahead.
-/

open StateExcept

namespace Asllvm

/-- Control only passes on here: at a marker, at a terminator to where markers lie, or where nothing
lies at all. -/
def AtRest (F : BlockId → List Item) (p : Position) : Prop :=
  itemAt F p = none ∨ AtMarker F p ∨ ∃ t, itemAt F p = some (.term t) ∧
    ∀ b ∈ t.successors, itemAt F (b, 0) = none ∨ AtMarker F (b, 0)

/-- The **pieces that remain** at a position: they lie ahead, and control rests after them, in a place
that fulfils `E`. -/
def RemainsTo (F : BlockId → List Item) (E : Position → Prop) (p : Position) (ps : List Piece) :
    Prop :=
  OpenAt F p ∧ ∃ r, CodeAt .Implementation F p ps r ∧ (OpenAt F r → AtRest F r ∧ E r)

/-- The pieces that remain at a position, whatever comes after them. -/
abbrev Remains (F : BlockId → List Item) (p : Position) (ps : List Piece) : Prop :=
  RemainsTo F (fun _ => True) p ps

/-- The activation does not return here. -/
def NoReturn (F : BlockId → List Item) (p : Position) : Prop :=
  ∀ state, itemAt F p ≠ some (.term (.ret state))

/-- Only a `RET` returns here, with `Ok`. -/
def ReturnsOk (F : BlockId → List Item) (bc : Opcode) (p : Position) : Prop :=
  ∀ state, itemAt F p = some (.term (.ret state)) → bc = .RET ∧ state = VmState.Ok.const.op

/-! ### Where code lies -/

section Static

variable {context : FunctionContext} {bytecode : List BytecodeInstruction}
  {ins : BytecodeInstruction} {T : Translation} {F : BlockId → List Item} {p q : Position}
  {ps : List Piece} {sp : ℤ}

variable {E : Position → Prop}

theorem AtRest.remains (h : AtRest F p) (hopen : OpenAt F p) : Remains F p [] :=
  ⟨hopen, p, .nil p, fun _ => ⟨h, trivial⟩⟩

theorem RemainsTo.remains (h : RemainsTo F E p ps) : Remains F p ps := by
  obtain ⟨hopen, r, hcode, hrest⟩ := h
  exact ⟨hopen, r, hcode, fun hr => ⟨(hrest hr).1, trivial⟩⟩

theorem RemainsTo.mono {E' : Position → Prop} (h : RemainsTo F E p ps) (hE : ∀ r, E r → E' r) :
    RemainsTo F E' p ps := by
  obtain ⟨hopen, r, hcode, hrest⟩ := h
  exact ⟨hopen, r, hcode, fun hr => ⟨(hrest hr).1, hE r (hrest hr).2⟩⟩

/-- Nothing, or a marker, is no return. -/
theorem noReturn_of_atMarker (h : itemAt F p = none ∨ AtMarker F p) : NoReturn F p := by
  intro state hitem
  rcases h with hnone | ⟨o, ho⟩
  · exact absurd (hnone.symm.trans hitem) (Option.some_ne_none _).symm
  · exact Item.noConfusion (Option.some.inj (ho.symm.trans hitem))

/-- Behind some instructions comes a place at rest. -/
theorem LaidOut.atRest {stack : StackFrame} {jumps : JumpTables} {s u : EmitState} {z r : Position}
    (h : LaidOut stack jumps F s r bytecode u z) (hend : itemAt F z = none) (hopen : OpenAt F r) :
    AtRest F r ∧ NoReturn F r := by
  cases h with
  | nil => exact ⟨.inl hend, noReturn_of_atMarker (.inl hend)⟩
  | cons hins _ =>
      have hmarker := hins.marker
      have henters := hins.enters
      generalize jumps.jumpMap _ = label at henters
      cases henters with
      | fallthrough => exact ⟨.inr (.inl ⟨_, hmarker⟩), noReturn_of_atMarker (.inr ⟨_, hmarker⟩)⟩
      | label hbranch =>
          have hitem := hbranch hopen
          refine ⟨.inr (.inr ⟨_, hitem, fun b hb => ?_⟩), fun state hret => ?_⟩
          · obtain rfl := List.mem_singleton.mp hb
            exact .inr ⟨_, hmarker⟩
          · exact Terminator.noConfusion (Item.term.inj (Option.some.inj (hitem.symm.trans hret)))

/-- A label is filled from its marker on, or empty. -/
theorem label_atMarker (hwalked : Walked bytecode) (h : translateBytecode context bytecode = .ok T)
    (l : ℤ) : itemAt T.cfg.blocks (.label l, 0) = none ∨ AtMarker T.cfg.blocks (.label l, 0) := by
  by_cases hl : LabelledInstruction T.jumps bytecode l
  · obtain ⟨ins, hins, rfl, hlabel⟩ := hl
    exact .inr ⟨_, label_filled hwalked h hins hlabel⟩
  · rw [itemAt, label_empty hwalked h hl]
    exact .inl rfl

/-- **What remains at the entry** of a function: its local structures. -/
theorem translateBytecode_entry_remainsTo (hwalked : Walked bytecode)
    (h : translateBytecode context bytecode = .ok T) : ∃ s₀,
      Runs (emitAllocateLocalStructures context) BuilderState.new.emit T.stack s₀ ∧
      RemainsTo T.cfg.blocks (NoReturn T.cfg.blocks) (.entry, 0) s₀.out := by
  obtain ⟨-, s₀, r₀, s₁, hlocal, hcode, hlaid, -⟩ := translateBytecode_laidOut hwalked h
  exact ⟨s₀, hlocal, .start _, r₀, hcode, hlaid.atRest (itemAt_position T.cfg)⟩

theorem translateBytecode_entry_remains (hwalked : Walked bytecode)
    (h : translateBytecode context bytecode = .ok T) : ∃ s₀,
      Runs (emitAllocateLocalStructures context) BuilderState.new.emit T.stack s₀ ∧
      Remains T.cfg.blocks (.entry, 0) s₀.out := by
  obtain ⟨s₀, hlocal, hremains⟩ := translateBytecode_entry_remainsTo hwalked h
  exact ⟨s₀, hlocal, hremains.remains⟩

/-- **What remains behind the marker** of an instruction: its pieces. Only a `RET` returns after
them, with `Ok`. -/
theorem CodeOf.remainsTo (hwalked : Walked bytecode) (h : translateBytecode context bytecode = .ok T)
    (hcode : CodeOf context T bytecode ins sp ps p q) (hopen : OpenAt T.cfg.blocks p) :
    RemainsTo T.cfg.blocks (ReturnsOk T.cfg.blocks ins.bc) p.next ps := by
  have hmarker := hcode.codeAt.1
  obtain ⟨st, t, s', ⟨pre, post, st', t', s'', q', rfl, hsplit⟩, -, rfl, hruns, -, -⟩ := hcode
  obtain ⟨rfl, rfl⟩ := hruns.det hsplit.here.runs
  refine ⟨hopen.next hmarker rfl, q', hsplit.here.code, fun hq => ?_⟩
  have hleaves := hsplit.here.leaves
  have hends := translateOpcode_endsWith hruns
  rw [(runs_translateBytecode h).1] at hends
  cases ht : t with
  | none =>
      rw [ht] at hleaves
      obtain ⟨s₁, hlaid, -⟩ := hsplit.rest
      generalize st'.cfg.position = r at hlaid hleaves
      cases hleaves
      have hrest := hlaid.atRest (itemAt_position T.cfg) hq
      exact ⟨hrest.1, fun state hitem => absurd hitem (hrest.2 state)⟩
  | some term =>
      rw [ht] at hleaves hends
      generalize st'.cfg.position = r at hleaves
      cases hleaves with
      | closed hitem =>
          refine ⟨.inr (.inr ⟨term, hitem, fun b hb => ?_⟩), fun state hitem' => ?_⟩
          · obtain ⟨l, rfl⟩ := hends.exists_label hb
            exact label_atMarker hwalked h l
          · obtain rfl := Item.term.inj (Option.some.inj (hitem.symm.trans hitem'))
            cases hends with
            | ret hret => exact ⟨hret, rfl⟩

theorem CodeOf.remains (hwalked : Walked bytecode) (h : translateBytecode context bytecode = .ok T)
    (hcode : CodeOf context T bytecode ins sp ps p q) (hopen : OpenAt T.cfg.blocks p) :
    Remains T.cfg.blocks p.next ps := (hcode.remainsTo hwalked h hopen).remains

/-- **Every marker is that of an instruction**, whose pieces remain behind it. -/
theorem exists_codeOf_of_marker {o : ℕ} (hwalked : Walked bytecode)
    (h : translateBytecode context bytecode = .ok T)
    (hp : itemAt T.cfg.blocks p = some (.marker o)) :
    ∃ ins sp ps q, ins.offset = o ∧ CodeOf context T bytecode ins sp ps p q := by
  obtain ⟨ins, st, hat, rfl⟩ := exists_located_of_marker hwalked h hp
  obtain ⟨t, s', q, hruns, hterm, hreached⟩ := hat.reached
  exact ⟨ins, _, _, q, rfl, st, t, s', hat, rfl, rfl, hruns, hterm, hreached⟩

end Static

/-! ### Steps -/

/-- A step inside a function that leaves `ps'` of the pieces `ps` ahead. -/
inductive Advances (env : Env) (s : LocalState) : List Piece → LocalState → List Piece → Prop
  | instr {i : Instr} {regs : Regs} {mem : Bytes.Mem} {ps : List Piece} :
      itemAt env.blocks s.position = some (.instr i) →
      i.exec env s.regs s.mem = some (regs, mem) →
      Advances env s (.instr i :: ps)
        { s with position := s.position.next, regs := regs, mem := mem } ps
  | passes {t : Terminator} {cond state : Operand} {p : Position} {ps : List Piece} :
      itemAt env.blocks s.position = some (.term t) → (cond.eval env s.regs).getLsbD 0 = false →
      Advances env s (.check cond state :: ps) { s with position := p } ps
  | fires {t : Terminator} {cond state : Operand} {p : Position} {ps : List Piece} :
      itemAt env.blocks s.position = some (.term t) → (cond.eval env s.regs).getLsbD 0 = true →
      itemAt env.blocks p = some (.term (.ret state)) →
      Advances env s (.check cond state :: ps) { s with position := p } []
  | branch {t : Terminator} {p : Position} :
      itemAt env.blocks s.position = some (.term t) → Advances env s [] { s with position := p } []

section Steps

variable {env : Env} {s s' : LocalState} {ps : List Piece}

/-- Where an activation makes a call, the call lies. -/
theorem LocalState.itemAt_of_call {dst : Option ℕ} {callee : Callee} {args : List Value}
    (h : s.step env = .call dst callee args) :
    itemAt env.blocks s.position = some (.instr (.call dst callee args)) := by
  rw [LocalState.step] at h
  split at h
  case h_3 hitem =>
      obtain ⟨rfl, rfl, rfl⟩ := Outcome.call.inj h
      exact hitem
  case h_4 | h_7 =>
      split at h <;> exact Outcome.noConfusion h
  all_goals exact Outcome.noConfusion h

/-- Where an activation returns, the return lies. -/
theorem LocalState.itemAt_of_ret {value : Word} (h : s.step env = .ret value) :
    ∃ state, itemAt env.blocks s.position = some (.term (.ret state)) ∧
      value = state.eval env s.regs := by
  rw [LocalState.step] at h
  split at h
  case h_5 state hitem => exact ⟨state, hitem, (Outcome.ret.inj h).symm⟩
  case h_4 | h_7 =>
      split at h <;> exact Outcome.noConfusion h
  all_goals exact Outcome.noConfusion h

/-- What a step inside a function does at each item. -/
theorem LocalState.cases_of_next (h : s.step env = .next s') :
    (∃ o, itemAt env.blocks s.position = some (.marker o) ∧
      s' = { s with position := s.position.next, current := some o }) ∨
    (∃ i regs mem, itemAt env.blocks s.position = some (.instr i) ∧
      i.exec env s.regs s.mem = some (regs, mem) ∧
      s' = { s with position := s.position.next, regs := regs, mem := mem }) ∨
    ∃ t b, itemAt env.blocks s.position = some (.term t) ∧ t.goto env s.regs = some b ∧
      s' = { s with position := (b, 0) } := by
  rw [LocalState.step] at h
  split at h
  case h_2 o hitem => exact .inl ⟨o, hitem, (Outcome.next.inj h).symm⟩
  case h_4 i _ hitem =>
      split at h
      · rename_i regs mem hexec
        exact .inr (.inl ⟨i, regs, mem, hitem, hexec, (Outcome.next.inj h).symm⟩)
      · exact Outcome.noConfusion h
  case h_7 t _ _ hitem =>
      split at h
      · rename_i b hgoto
        exact .inr (.inr ⟨t, b, hitem, hgoto, (Outcome.next.inj h).symm⟩)
      · exact Outcome.noConfusion h
  all_goals exact Outcome.noConfusion h

/-- A terminator goes to one of its successors. -/
theorem Terminator.mem_successors_of_goto {t : Terminator} {regs : Regs} {b : BlockId}
    (h : t.goto env regs = some b) : b ∈ t.successors := by
  cases t with
  | ret | retVoid => exact absurd h (Option.some_ne_none _).symm
  | br target =>
      obtain rfl := Option.some.inj h
      exact List.mem_singleton_self _
  | condBr cond ifTrue ifFalse =>
      obtain rfl := Option.some.inj h
      rw [Terminator.successors]
      split
      · exact List.mem_cons_self
      · exact List.mem_cons_of_mem _ List.mem_cons_self
  | switch value default cases =>
      obtain rfl := Option.some.inj h
      rw [Terminator.successors]
      cases hcase : cases[((value.eval env regs).setWidth 32).toNat]? with
      | none => exact List.mem_cons_self
      | some target => exact List.mem_cons_of_mem _ (List.mem_of_getElem? hcase)

variable {E : Position → Prop}

/-- **A call** is the first of the pieces ahead. -/
theorem RemainsTo.call {dst : Option ℕ} {callee : Callee} {args : List Value}
    (h : RemainsTo env.blocks E s.position ps) (hstep : s.step env = .call dst callee args) :
    ∃ ps', ps = .instr (.call dst callee args) :: ps' ∧
      RemainsTo env.blocks E s.position.next ps' := by
  obtain ⟨hopen, r, hcode, hrest⟩ := h
  have hitem := LocalState.itemAt_of_call hstep
  cases hcode with
  | nil =>
      rcases (hrest hopen).1 with hnone | ⟨o, ho⟩ | ⟨t, ht, -⟩
      · exact absurd (hnone.symm.trans hitem) (Option.some_ne_none _).symm
      · exact Item.noConfusion (Option.some.inj (ho.symm.trans hitem))
      · exact Item.noConfusion (Option.some.inj (ht.symm.trans hitem))
  | instr hitem' hps =>
      obtain rfl := Item.instr.inj (Option.some.inj (hitem'.symm.trans hitem))
      exact ⟨_, rfl, hopen.next hitem rfl, r, hps, hrest⟩
  | check hitem' _ _ => exact Item.noConfusion (Option.some.inj (hitem'.symm.trans hitem))

/-- **A return** comes after all pieces. -/
theorem RemainsTo.ret {state : Operand} (h : RemainsTo env.blocks E s.position ps)
    (hitem : itemAt env.blocks s.position = some (.term (.ret state))) : E s.position := by
  obtain ⟨hopen, r, hcode, hrest⟩ := h
  cases hcode with
  | nil => exact (hrest hopen).2
  | instr hitem' _ => exact Item.noConfusion (Option.some.inj (hitem'.symm.trans hitem))
  | check hitem' _ _ =>
      exact Terminator.noConfusion (Item.term.inj (Option.some.inj (hitem'.symm.trans hitem)))

/-- **A branch to a return** is a check, the first of the pieces ahead. -/
theorem RemainsTo.check {cond state : Operand} {n : ℕ} (h : RemainsTo env.blocks E s.position ps)
    (hitem : itemAt env.blocks s.position =
      some (.term (.condBr cond (.setVmException n) (.doNotSetVmException n))))
    (hret : itemAt env.blocks (.setVmException n, 0) = some (.term (.ret state))) :
    ∃ ps', ps = .check cond state :: ps' := by
  obtain ⟨hopen, r, hcode, hrest⟩ := h
  cases hcode with
  | nil =>
      rcases (hrest hopen).1 with hnone | ⟨o, ho⟩ | ⟨t, ht, hsuccessors⟩
      · exact absurd (hnone.symm.trans hitem) (Option.some_ne_none _).symm
      · exact Item.noConfusion (Option.some.inj (ho.symm.trans hitem))
      · obtain rfl := Item.term.inj (Option.some.inj (ht.symm.trans hitem))
        rcases hsuccessors _ List.mem_cons_self with hnone | ⟨o, ho⟩
        · exact absurd (hnone.symm.trans hret) (Option.some_ne_none _).symm
        · exact Item.noConfusion (Option.some.inj (ho.symm.trans hret))
  | instr hitem' _ => exact Item.noConfusion (Option.some.inj (hitem'.symm.trans hitem))
  | @check _ _ cond' state' n' ps' hitem' hblock _ =>
      obtain ⟨rfl, hn, -⟩ := Terminator.condBr.inj
        (Item.term.inj (Option.some.inj (hitem'.symm.trans hitem)))
      obtain rfl := BlockId.setVmException.inj hn
      have hret' := itemAt_of_prefix hblock (k := 0) rfl
      obtain rfl := Terminator.ret.inj (Item.term.inj (Option.some.inj (hret'.symm.trans hret)))
      exact ⟨ps', rfl⟩

/-- **A step uses up the first of the pieces ahead**, or it leaves through the check that is the first
of them, or it branches to where nothing or a marker lies, or it passes a marker. -/
theorem RemainsTo.next (h : RemainsTo env.blocks E s.position ps) (hstep : s.step env = .next s') :
    (∃ piece ps', ps = piece :: ps' ∧ Advances env s ps s' ps' ∧
      RemainsTo env.blocks E s'.position ps') ∨
    (∃ n cond state ps', ps = .check cond state :: ps' ∧ Advances env s ps s' [] ∧
      (cond.eval env s.regs).getLsbD 0 = true ∧
      itemAt env.blocks s'.position = some (.term (.ret state)) ∧
      s' = { s with position := (.setVmException n, 0) }) ∨
    (ps = [] ∧ Advances env s [] s' [] ∧ OpenAt env.blocks s'.position ∧
      (itemAt env.blocks s'.position = none ∨ AtMarker env.blocks s'.position)) ∨
    ps = [] ∧ ∃ o, itemAt env.blocks s.position = some (.marker o) ∧
      s' = { s with position := s.position.next, current := some o } := by
  obtain ⟨hopen, r, hcode, hrest⟩ := h
  cases hcode with
  | nil =>
      rcases LocalState.cases_of_next hstep with ⟨o, hitem, rfl⟩ | ⟨i, regs, mem, hitem, -, rfl⟩ |
        ⟨t, b, hitem, hgoto, rfl⟩
      · exact .inr (.inr (.inr ⟨rfl, o, hitem, rfl⟩))
      · rcases (hrest hopen).1 with hnone | ⟨o, ho⟩ | ⟨t, ht, -⟩
        · exact absurd (hnone.symm.trans hitem) (Option.some_ne_none _).symm
        · exact Item.noConfusion (Option.some.inj (ho.symm.trans hitem))
        · exact Item.noConfusion (Option.some.inj (ht.symm.trans hitem))
      · rcases (hrest hopen).1 with hnone | ⟨o, ho⟩ | ⟨t', ht', hsucc⟩
        · exact absurd (hnone.symm.trans hitem) (Option.some_ne_none _).symm
        · exact Item.noConfusion (Option.some.inj (ho.symm.trans hitem))
        · obtain rfl := Item.term.inj (Option.some.inj (ht'.symm.trans hitem))
          have hb := hsucc b (Terminator.mem_successors_of_goto hgoto)
          exact .inr (.inr (.inl ⟨rfl, .branch hitem, .start b, hb⟩))
  | @instr _ _ i ps hitem' hps =>
      rcases LocalState.cases_of_next hstep with ⟨o, hitem, rfl⟩ | ⟨i, regs, mem, hitem, hexec, rfl⟩ |
        ⟨t, b, hitem, -, rfl⟩
      · exact Item.noConfusion (Option.some.inj (hitem'.symm.trans hitem))
      · obtain rfl := Item.instr.inj (Option.some.inj (hitem'.symm.trans hitem))
        exact .inl ⟨_, ps, rfl, .instr hitem hexec, hopen.next hitem rfl, r, hps, hrest⟩
      · exact Item.noConfusion (Option.some.inj (hitem'.symm.trans hitem))
  | @check _ _ cond state n ps hitem' hblock hps =>
      have hbranch := LocalState.step_branch hitem' rfl
      obtain rfl := Outcome.next.inj (hstep.symm.trans hbranch)
      cases hfired : (cond.eval env s.regs).getLsbD 0 with
      | false => exact .inl ⟨_, ps, rfl, .passes hitem' hfired, .start _, r, hps, hrest⟩
      | true =>
          have hret := itemAt_of_prefix hblock (k := 0) rfl
          exact .inr (.inl ⟨n, cond, state, ps, rfl, .fires hitem' hfired hret, hfired, hret, rfl⟩)

/-- **A step uses up the first of the pieces ahead**, unless it passes a marker. -/
theorem Remains.next (h : Remains env.blocks s.position ps) (hstep : s.step env = .next s') :
    (∃ ps', Advances env s ps s' ps' ∧ Remains env.blocks s'.position ps') ∨
    ps = [] ∧ ∃ o, itemAt env.blocks s.position = some (.marker o) ∧
      s' = { s with position := s.position.next, current := some o } := by
  rcases RemainsTo.next h hstep with ⟨piece, ps', -, hadvances, hremains⟩ |
    ⟨n, cond, state, ps', rfl, hadvances, -, hitem, rfl⟩ | ⟨rfl, hadvances, hopen, hitem⟩ | hmarker
  · exact .inl ⟨ps', hadvances, hremains⟩
  · have hatRest : AtRest env.blocks (.setVmException n, 0) :=
      .inr (.inr ⟨_, hitem, fun b hb => absurd hb List.not_mem_nil⟩)
    exact .inl ⟨[], hadvances, hatRest.remains (.start _)⟩
  · have hatRest : AtRest env.blocks s'.position := hitem.imp_right Or.inl
    exact .inl ⟨[], hadvances, hatRest.remains hopen⟩
  · exact .inr hmarker

end Steps

end Asllvm
