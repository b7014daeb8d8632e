import Asllvm.Linking

/-!
# What Calls are Bound to

Inside a builder a function is found by its id, between builders by the name that the declaration
gives it, and `link` looks that name up once more. After a build every call should reach the function
it was meant for, whatever suffixes LLVM makes and in whatever order the builders are visited.

## Conventions

All functions that are called are submitted, and all translations return. A call of a script function
reaches it if it leads to its code; a call of a system function if it leads to its native function.

## Main results

* `linksCalls_iff` — all calls and all user data reach their functions exactly if no two script
  functions have the same name, and system functions with the same declaration, asked for by
  different modules, have the same native function if both are the first of that declaration in
  their module, or neither is.
* `not_linksCalls_sameDeclaration` — two functions of one owner with the same declaration are mixed up.
-/

namespace Asllvm

/-! ### What calls should reach -/

/-- A definition is the code of a function. -/
def Jit.HasCode (jit : Jit) (d : Definition) (f : OwnedFunction) : Prop :=
  ∃ m i fn, d = .code m i ∧ jit.function? m i = some fn ∧ fn.role = .reference (.script f) ∧
    fn.bodies = [f]

/-- **A definition is what a reference is meant for.** -/
def Jit.Reaches (jit : Jit) (d : Definition) : Reference → Prop
  | .script f => jit.HasCode d f
  | .system f => d = .native f.sysFuncIntf.func

/-- **A compiler after `link`**: the user data of what was submitted, and all calls, reach their
functions. -/
structure Linked (ps : List PendingFunction) (s : JitCompiler) : Prop where
  userData : ∀ p ∈ ps, ∃ d, s.userData p.function.id = some d ∧ s.jit.HasCode d p.function
  calls : ∀ m i fn, s.jit.function? m i = some fn → ∀ call ∈ fn.calls,
    ∃ d, s.jit.resolve m call.2 = some d ∧ s.jit.Reaches d call.1

/-- A new compiler to which functions have been submitted one after the other. -/
def JitCompiler.submitted (ps : List PendingFunction) : JitCompiler :=
  ps.foldl JitCompiler.jitCompile .new

/-- **Linking by name binds every call**, whatever names LLVM makes and in whatever order the
builders are visited. -/
def Compiler.LinksCalls (C : Compiler) (ps : List PendingFunction) : Prop :=
  ∀ (naming : Naming) (order : List (String × ModuleBuilder)),
    order.Perm (JitCompiler.submitted ps).map →
      ∃ s, { C with naming := naming }.buildModules order (.submitted ps) = .done s ∧ Linked ps s

/-! ### When they do -/

/-- The first function of its declaration that the module of an owner is asked for. -/
def Compiler.AsksFirst (C : Compiler) (ps : List PendingFunction) (owner : Option String)
    (g : OwnedFunction) : Prop :=
  ((ownedBy owner ps).flatMap fun p => C.requests p.function).find?
    (fun role => role.name = makeSystemFunctionName g) = some (.reference (.system g))

/-- **Names that tell the functions apart.** -/
structure Compiler.NamesApart (C : Compiler) (ps : List PendingFunction) : Prop where
  scripts : ∀ p ∈ ps, ∀ q ∈ ps, makeFunctionName p.function = makeFunctionName q.function →
    p.function = q.function
  systems : ∀ p ∈ ps, ∀ q ∈ ps, p.function.moduleName ≠ q.function.moduleName →
    ∀ g g', .system g ∈ C.asked p.function → .system g' ∈ C.asked q.function →
      g.declaration = g'.declaration →
        (C.AsksFirst ps p.function.moduleName g ↔ C.AsksFirst ps q.function.moduleName g') →
          g.sysFuncIntf.func = g'.sysFuncIntf.func

/-- **A program that can be compiled as a whole**: functions have ids of their own, all translations
return, and every function that is called is submitted. -/
structure Compiler.Whole (C : Compiler) (ps : List PendingFunction) : Prop where
  ids : DistinctIds (C.known ps)
  returns : ∀ p ∈ ps, C.completion p.function = .returned
  closed : ∀ p ∈ ps, ∀ g, .script g ∈ C.asked p.function → ∃ q ∈ ps, q.function = g

section

variable {C : Compiler} {ps : List PendingFunction} {s : JitCompiler} {built : List ModuleBuilder}

theorem JitCompiler.submitted_holding (ps : List PendingFunction) :
    (JitCompiler.submitted ps).Holding ps := by
  have hfold : ∀ (qs rs : List PendingFunction) (s : JitCompiler), s.Holding qs →
      (rs.foldl JitCompiler.jitCompile s).Holding (qs ++ rs) := by
    intro qs rs
    induction rs generalizing qs with
    | nil =>
        intro s h
        simpa using h
    | cons r rs ih =>
        intro s h
        have hrest := ih (qs ++ [r]) (s.jitCompile r) (h.jitCompile r)
        rwa [List.append_assoc] at hrest
  exact hfold [] ps .new JitCompiler.new_holding

/-- Another naming changes nothing about a whole program. -/
theorem Compiler.Whole.withNaming (h : C.Whole ps) (naming : Naming) :
    { C with naming := naming }.Whole ps := ⟨h.ids, h.returns, h.closed⟩

/-! ### Names that tell the functions apart are enough -/

/-- A whole program with different names for its script functions can be built. -/
theorem Compiler.Whole.buildable (h : C.Whole ps)
    (hscripts : ∀ p ∈ ps, ∀ q ∈ ps, makeFunctionName p.function = makeFunctionName q.function →
      p.function = q.function) : C.Buildable ps where
  stops owner := by
    have hnone : (submittedTo owner (ownedBy owner ps)).pendingFunctions.find?
        (C.stopsAt (submittedTo owner (ownedBy owner ps))) = none := by
      rw [List.find?_eq_none]
      intro p hp
      rw [Compiler.stopsAt, h.returns p (List.mem_filter.mp hp).1]
      simp
    rw [Compiler.stops, hnone]
    simp
  owners p hp q hq hname := congrArg OwnedFunction.moduleName (hscripts p hp q hq hname)
  first p hp g hg := by
    obtain ⟨q, hq, hrequest⟩ := List.mem_flatMap.mp (List.mem_of_find?_eq_some hg)
    have hq := (List.mem_filter.mp hq).1
    rw [Compiler.requests, List.cons_append, List.mem_cons, List.mem_append, List.mem_singleton]
      at hrequest
    rcases hrequest with hrequest | hrequest | hrequest
    · injection hrequest with hrequest
      injection hrequest with hrequest
      exact ⟨q, hq, hrequest.symm⟩
    · obtain ⟨r, hr, hrole⟩ := List.mem_map.mp hrequest
      injection hrole with hrole
      exact h.closed q hq g (hrole ▸ hr)
    · cases hrequest

/-- **A whole program with different names** is built. -/
theorem Compiler.Whole.exists_built (h : C.Whole ps)
    (hscripts : ∀ p ∈ ps, ∀ q ∈ ps, makeFunctionName p.function = makeFunctionName q.function →
      p.function = q.function) {order : List (String × ModuleBuilder)}
    (horder : order.Perm (JitCompiler.submitted ps).map) :
    ∃ s built, C.buildModules order (.submitted ps) = .done s ∧ C.Built ps s built := by
  have hs := JitCompiler.submitted_holding ps
  rcases buildModules_built h.ids (h.buildable hscripts) hs horder with
    haborted | ⟨s, built, hdone, hbuilt, -⟩
  · exact absurd haborted (buildModules_ne_aborted hs
      (fun p hp => by rw [h.returns p hp]; exact Completion.noConfusion) horder)
  · exact ⟨s, built, hdone, hbuilt⟩

/-- What a module has was asked for by a function that was submitted to it. -/
theorem Compiler.Built.exists_asked (h : C.Built ps s built) {b : ModuleBuilder} (hb : b ∈ built)
    {r : Reference} (hr : .reference r ∈ b.roles) :
    ∃ p ∈ ps, p.function.moduleName = b.scriptModule ∧
      (r = .script p.function ∨ r ∈ C.asked p.function) := by
  obtain ⟨p, hp, hrequest⟩ := List.mem_flatMap.mp (((h.builtFrom b hb).requests.mem_iff _).mp hr)
  obtain ⟨hp, howner⟩ := List.mem_filter.mp hp
  refine ⟨p, hp, of_decide_eq_true howner, ?_⟩
  rw [Compiler.requests, List.cons_append, List.mem_cons, List.mem_append, List.mem_singleton]
    at hrequest
  rcases hrequest with hrequest | hrequest | hrequest
  · injection hrequest with hrequest
    exact .inl hrequest
  · obtain ⟨r', hr', hrole⟩ := List.mem_map.mp hrequest
    injection hrole with hrole
    exact .inr (hrole ▸ hr')
  · cases hrequest

/-- **A system function has the name it wants** exactly if its module is asked for it first. -/
theorem Compiler.Built.named_iff (h : C.Built ps s built) {b : ModuleBuilder} (hb : b ∈ built)
    {fn : LlvmFunction} (hfn : fn ∈ b.functions) {g : OwnedFunction}
    (hrole : fn.role = .reference (.system g)) :
    fn.name = fn.role.name ↔ C.AsksFirst ps b.scriptModule g := by
  have hwanted : fn.role.name = makeSystemFunctionName g := by
    rw [hrole]
    rfl
  rw [(h.sound b hb).first_iff hfn hwanted, (h.builtFrom b hb).requests, hrole]
  rfl

/-- A place of the JIT is one of a builder. -/
theorem Compiler.Built.place (h : C.Built ps s built) {m i : ℕ} {fn : LlvmFunction}
    (hfn : s.jit.function? m i = some fn) :
    ∃ b ∈ built, built[m]? = some b ∧ b.functions[i]? = some fn := by
  rw [Jit.function?_eq h.holds.modules] at hfn
  obtain ⟨b, hm, hi⟩ := Option.bind_eq_some_iff.mp hfn
  exact ⟨b, List.mem_of_getElem? hm, hm, hi⟩

/-- The function of its module that a call goes to. -/
theorem Compiler.Built.callee (h : C.Built ps s built) (hids : DistinctIds (C.known ps)) {m i : ℕ}
    {fn : LlvmFunction} (hfn : s.jit.function? m i = some fn) {call : Reference × ℕ}
    (hcall : call ∈ fn.calls) :
    ∃ b ∈ built, ∃ fn', built[m]? = some b ∧ b.functions[call.2]? = some fn' ∧
      s.jit.function? m call.2 = some fn' ∧ fn'.role = .reference call.1 := by
  obtain ⟨b, hb, hm, hi⟩ := h.place hfn
  have hsound := h.sound b hb
  obtain ⟨hknown, hfind⟩ := hsound.calls fn (List.mem_of_getElem? hi) call hcall
  have hrole := hsound.role_of_find hids hknown hfind
  rw [b.roles_getElem?] at hrole
  obtain ⟨fn', hfn', hrole⟩ := Option.map_eq_some_iff.mp hrole
  refine ⟨b, hb, fn', hm, hfn', ?_, hrole⟩
  rw [Jit.function?_eq h.holds.modules, hm]
  exact hfn'

theorem ModuleBuilder.mem_roles {b : ModuleBuilder} {fn : LlvmFunction} (hfn : fn ∈ b.functions)
    {role : Role} (hrole : fn.role = role) : role ∈ b.roles :=
  hrole ▸ List.mem_map_of_mem hfn

/-- Every script function of a module is one that was submitted. -/
theorem Compiler.Built.exists_submitted (h : C.Built ps s built) (hwhole : C.Whole ps)
    {b : ModuleBuilder} (hb : b ∈ built) {f : OwnedFunction}
    (hf : .reference (.script f) ∈ b.roles) : ∃ p ∈ ps, p.function = f := by
  obtain ⟨p, hp, -, hsame | hasked⟩ := h.exists_asked hb hf
  · injection hsame with hsame
    exact ⟨p, hp, hsame.symm⟩
  · exact hwhole.closed p hp f hasked

/-- **The name of a function is bound to its code**, when the names of the script functions are
different. -/
theorem Compiler.Built.hasCode (h : C.Built ps s built) (hwhole : C.Whole ps)
    (hscripts : ∀ p ∈ ps, ∀ q ∈ ps, makeFunctionName p.function = makeFunctionName q.function →
      p.function = q.function) {p : PendingFunction} (hp : p ∈ ps) :
    ∃ d, s.jit.lookup (makeFunctionName p.function) = some d ∧ s.jit.HasCode d p.function := by
  obtain ⟨b, hb, -, hcompiled⟩ := h.compiled hp
  obtain ⟨m, i, fn, hm, hi, hlookup, g, hrole, hbodies, hname, hg⟩ :=
    exists_lookup_name hwhole.ids (hwhole.buildable hscripts) h.holds hb (h.sound b hb)
      (h.builtFrom b hb) hcompiled
  obtain ⟨q, hq, rfl⟩ := ((h.builtFrom b hb).compiled g).mp hg
  have hsame := hscripts q (List.mem_filter.mp hq).1 p hp hname
  refine ⟨_, hlookup, m, i, fn, rfl, ?_, hsame ▸ hrole, hsame ▸ hbodies⟩
  rw [Jit.function?_eq h.holds.modules, hm]
  exact hi

/-- **A script function has the name it wants**, when the names are different. -/
theorem Compiler.Built.script_name (h : C.Built ps s built) (hwhole : C.Whole ps)
    (hscripts : ∀ p ∈ ps, ∀ q ∈ ps, makeFunctionName p.function = makeFunctionName q.function →
      p.function = q.function) {b : ModuleBuilder} (hb : b ∈ built) {fn : LlvmFunction}
    (hfn : fn ∈ b.functions) {f : OwnedFunction} (hrole : fn.role = .reference (.script f)) :
    fn.name = makeFunctionName f := by
  have hmem : fn.role ∈ b.roles := List.mem_map_of_mem hfn
  have hsound := h.sound b hb
  obtain ⟨p, hp, rfl⟩ := h.exists_submitted hwhole hb (hrole ▸ hmem)
  obtain ⟨fn₁, hfn₁, hname, hfirst⟩ := hsound.exists_named hmem
  have hwanted : fn₁.role.name = fn.role.name := by simpa using List.find?_some hfirst
  have halike := Role.name_eq hwanted
  have hmem₁ : fn₁.role ∈ b.roles := List.mem_map_of_mem hfn₁
  rw [hrole] at halike
  rcases hr : fn₁.role with (g | g) | g <;> rw [hr] at halike
  · rw [hr] at hmem₁
    obtain ⟨q, hq, rfl⟩ := h.exists_submitted hwhole hb hmem₁
    rw [hscripts q hq p hp halike, ← hrole] at hr
    rw [hr] at hfirst
    rw [(hsound.first_iff hfn rfl).mpr hfirst, hrole]
    rfl
  · exact halike.elim
  · exact halike.elim

/-- A call of a script function reaches it. -/
theorem Compiler.Built.script_call (h : C.Built ps s built) (hwhole : C.Whole ps)
    (hscripts : ∀ p ∈ ps, ∀ q ∈ ps, makeFunctionName p.function = makeFunctionName q.function →
      p.function = q.function) {m i : ℕ} {b : ModuleBuilder} (hb : b ∈ built)
    {fn : LlvmFunction} (hi : b.functions[i]? = some fn) (hplace : s.jit.function? m i = some fn)
    {f : OwnedFunction} (hrole : fn.role = .reference (.script f)) :
    ∃ d, s.jit.resolve m i = some d ∧ s.jit.HasCode d f := by
  have hfn := List.mem_of_getElem? hi
  rw [Jit.resolve, hplace]
  dsimp only [Option.bind_eq_bind, Option.bind_some]
  by_cases hdefined : fn.isDefined = true
  · rw [if_pos hdefined]
    have hbodies := (h.sound b hb).bodies fn hfn
    rw [hrole] at hbodies
    by_cases hcompiled : b.isCompiled f = true
    · simp only [hcompiled, if_true] at hbodies
      exact ⟨_, rfl, m, i, fn, rfl, hplace, hrole, hbodies⟩
    · simp only [hcompiled] at hbodies
      rw [LlvmFunction.isDefined, hbodies] at hdefined
      simp at hdefined
  · rw [if_neg hdefined, h.script_name hwhole hscripts hb hfn hrole]
    obtain ⟨p, hp, rfl⟩ := h.exists_submitted hwhole hb (ModuleBuilder.mem_roles hfn hrole)
    exact h.hasCode hwhole hscripts hp

/-- A system function has no code: a use of it leads to what its name is bound to. -/
theorem Compiler.Built.system_resolve (h : C.Built ps s built) {m i : ℕ} {b : ModuleBuilder}
    (hb : b ∈ built) {fn : LlvmFunction} (hi : b.functions[i]? = some fn)
    (hplace : s.jit.function? m i = some fn) {g : OwnedFunction}
    (hrole : fn.role = .reference (.system g)) : s.jit.resolve m i = s.jit.lookup fn.name := by
  have hdefined : ¬ fn.isDefined = true := fun hdefined =>
    (h.sound b hb).not_system_of_defined (List.mem_of_getElem? hi) hdefined g hrole
  rw [Jit.resolve, hplace]
  dsimp only [Option.bind_eq_bind, Option.bind_some]
  rw [if_neg hdefined]

/-- A call of a system function reaches its native function, when system functions that get the same
name in different modules have the same one. -/
theorem Compiler.Built.system_call (h : C.Built ps s built) (hapart : C.NamesApart ps) {m i : ℕ}
    {b : ModuleBuilder} (hb : b ∈ built) {fn : LlvmFunction} (hi : b.functions[i]? = some fn)
    (hplace : s.jit.function? m i = some fn) {g : OwnedFunction}
    (hrole : fn.role = .reference (.system g)) :
    s.jit.resolve m i = some (.native g.sysFuncIntf.func) := by
  have hfn := List.mem_of_getElem? hi
  have hsound := h.sound b hb
  rw [h.system_resolve hb hi hplace hrole]
  obtain ⟨v, hv⟩ := h.holds.system b hb fn hfn g hrole
  obtain ⟨b', hb', fn', hfn', g', hrole', hname, rfl⟩ := h.holds.origin fn.name _ hv
  rw [hv]
  suffices hsame : g'.sysFuncIntf.func = g.sysFuncIntf.func by rw [hsame]
  have hsound' := h.sound b' hb'
  by_cases howner : b'.scriptModule = b.scriptModule
  · -- one module has one function of that name
    obtain ⟨m₁, hm₁⟩ := List.mem_iff_getElem?.mp hb
    obtain ⟨m₂, hm₂⟩ := List.mem_iff_getElem?.mp hb'
    obtain rfl := h.unique hm₂ hm₁ howner
    obtain rfl : b' = b := Option.some.inj (hm₂.symm.trans hm₁)
    have hfns := List.inj_on_of_nodup_map hsound.names_nodup hfn' hfn hname
    rw [hfns, hrole] at hrole'
    injection hrole' with hrole'
    injection hrole' with hrole'
    rw [hrole']
  · obtain ⟨hwanted, hboth⟩ := hsound'.name_eq hsound hfn' hfn hname
    have hdeclaration := Role.name_eq hwanted
    rw [hrole, hrole'] at hdeclaration
    rw [h.named_iff hb' hfn' hrole', h.named_iff hb hfn hrole] at hboth
    obtain ⟨p', hp', howner', hasked'⟩ := h.exists_asked hb' (ModuleBuilder.mem_roles hfn' hrole')
    obtain ⟨p, hp, howner₁, hasked⟩ := h.exists_asked hb (ModuleBuilder.mem_roles hfn hrole)
    refine hapart.systems p' hp' p hp (by rwa [howner', howner₁]) g' g
      (hasked'.resolve_left Reference.noConfusion) (hasked.resolve_left Reference.noConfusion)
      hdeclaration ?_
    rw [howner', howner₁]
    exact hboth

/-- **Names that tell the functions apart** bind every call and all user data. -/
theorem Compiler.Built.linked (h : C.Built ps s built) (hwhole : C.Whole ps)
    (hapart : C.NamesApart ps) : Linked ps s where
  userData p hp := by
    rw [h.userData_eq hwhole.ids hp]
    exact h.hasCode hwhole hapart.scripts hp
  calls m i fn hfn call hcall := by
    obtain ⟨b, hb, fn', -, hi, hplace, hrole⟩ := h.callee hwhole.ids hfn hcall
    rcases hr : call.1 with f | g <;> rw [hr] at hrole
    · exact h.script_call hwhole hapart.scripts hb hi hplace hrole
    · exact ⟨_, h.system_call hapart hb hi hplace hrole, rfl⟩

/-! ### What the host is told, of any build -/

/-- The symbols of functions: each function has one, and they look up the names of the functions. -/
structure TellsOf (symbols : List JitSymbol) (ps : List PendingFunction) : Prop where
  all : ∀ p ∈ ps, ∃ symbol ∈ symbols, symbol.scriptFunction = p.function
  only : ∀ symbol ∈ symbols, symbol.name = makeFunctionName symbol.scriptFunction ∧
    ∃ p ∈ ps, p.function = symbol.scriptFunction

theorem TellsOf.append {symbols symbols' : List JitSymbol} {qs : List PendingFunction}
    (h : TellsOf symbols ps) (h' : TellsOf symbols' qs) :
    TellsOf (symbols ++ symbols') (ps ++ qs) where
  all p hp := by
    rcases List.mem_append.mp hp with hp | hp
    · obtain ⟨symbol, hsymbol, hsf⟩ := h.all p hp
      exact ⟨symbol, List.mem_append_left _ hsymbol, hsf⟩
    · obtain ⟨symbol, hsymbol, hsf⟩ := h'.all p hp
      exact ⟨symbol, List.mem_append_right _ hsymbol, hsf⟩
  only symbol hsymbol := by
    rcases List.mem_append.mp hsymbol with hsymbol | hsymbol
    · obtain ⟨hname, p, hp, hsf⟩ := h.only symbol hsymbol
      exact ⟨hname, p, List.mem_append_left _ hp, hsf⟩
    · obtain ⟨hname, p, hp, hsf⟩ := h'.only symbol hsymbol
      exact ⟨hname, p, List.mem_append_right _ hp, hsf⟩

theorem buildPending_tells {b b' : ModuleBuilder} {qs : List PendingFunction}
    (h : TellsOf b.jitFunctions qs) (hdone : C.buildPending ps b = .done b') :
    TellsOf b'.jitFunctions (qs ++ ps) := by
  induction ps generalizing b qs with
  | nil =>
      injection hdone with hb
      rw [List.append_nil, ← hb]
      exact h
  | cons p ps ih =>
      rw [Compiler.buildPending] at hdone
      rw [List.append_cons]
      split at hdone
      · rename_i hcompiled
        obtain ⟨symbol, hsymbol, hsf⟩ := List.any_eq_true.mp hcompiled
        refine ih ⟨fun q hq => ?_, fun symbol' hsymbol' => ?_⟩ hdone
        · rcases List.mem_append.mp hq with hq | hq
          · exact h.all q hq
          · rw [List.mem_singleton.mp hq]
            exact ⟨symbol, hsymbol, of_decide_eq_true hsf⟩
        · obtain ⟨hname, q, hq, hqf⟩ := h.only symbol' hsymbol'
          exact ⟨hname, q, List.mem_append_left _ hq, hqf⟩
      · cases hone : C.buildFunction b p with
        | done b₁ =>
            rw [hone] at hdone
            obtain ⟨-, -, hb₁⟩ := Compiler.buildFunction_done hone
            refine ih ?_ hdone
            rw [hb₁, Compiler.addEntryThunk_jitFunctions,
              (C.grown_translate b p.function).jitFunctions]
            exact h.append ⟨fun q hq => ⟨_, List.mem_singleton_self _, by
              rw [List.mem_singleton.mp hq]⟩, fun symbol hsymbol => by
                rw [List.mem_singleton.mp hsymbol]
                exact ⟨rfl, p, List.mem_singleton_self _, rfl⟩⟩
        | threw f b₁ => rw [hone] at hdone; cases hdone
        | aborted => rw [hone] at hdone; cases hdone
        | exited => rw [hone] at hdone; cases hdone
        | undefined => rw [hone] at hdone; cases hdone

/-- What a new builder tells the host once it is built. -/
theorem build_tells {jit jit' : Jit} {b b' : ModuleBuilder} (hnew : b.jitFunctions = [])
    (hdone : C.build jit b = .done (jit', b')) : TellsOf b'.jitFunctions b.pendingFunctions := by
  obtain ⟨b₁, hbuilt, hadd⟩ := BuildOutcome.andThen_done hdone
  rw [Compiler.buildFunctions] at hbuilt
  split at hbuilt
  · rename_i b₂ hpending
    have htells := @buildPending_tells C b.pendingFunctions b b₂ []
      (hnew ▸ ⟨fun _ hp => absurd hp List.not_mem_nil, fun _ hs => absurd hs List.not_mem_nil⟩)
      hpending
    injection hbuilt with hb₁
    rw [Compiler.addModule] at hadd
    split at hadd
    · cases hadd
    · split at hadd
      · injection hadd with hadd
        rw [← (Prod.mk.inj hadd).2, ← hb₁]
        exact htells
      · cases hadd
  · rename_i hother
    exact absurd hbuilt (hother _)

theorem buildAll_tells {map map' : List (String × ModuleBuilder)} {jit jit' : Jit}
    (hnew : ∀ nb ∈ map, nb.2.jitFunctions = [])
    (hdone : C.buildAll map jit = .done (jit', map')) :
    TellsOf (map'.flatMap (·.2.jitFunctions)) (map.flatMap (·.2.pendingFunctions)) := by
  induction map generalizing jit jit' map' with
  | nil =>
      injection hdone with hdone
      rw [← (Prod.mk.inj hdone).2]
      exact ⟨fun _ hp => absurd hp List.not_mem_nil, fun _ hs => absurd hs List.not_mem_nil⟩
  | cons nb map ih =>
      rw [Compiler.buildAll] at hdone
      obtain ⟨⟨jit₁, b₁⟩, hone, hdone⟩ := BuildOutcome.andThen_done hdone
      obtain ⟨⟨jit₂, map₂⟩, hrest, hdone⟩ := BuildOutcome.andThen_done hdone
      injection hdone with hdone
      rw [← (Prod.mk.inj hdone).2]
      exact (build_tells (hnew nb List.mem_cons_self) hone).append
        (ih (fun nb' hnb' => hnew nb' (List.mem_cons_of_mem nb hnb')) hrest)

/-- A `link` that returns has found every name. -/
theorem found_of_link {symbols : List JitSymbol} {s' : JitCompiler}
    (h : symbols.foldlM JitCompiler.linkSymbol s = some s') :
    ∀ symbol ∈ symbols, (s.jit.lookup symbol.name).isSome = true ∧
      (s.jit.lookup symbol.entryName).isSome = true := by
  induction symbols generalizing s with
  | nil => exact fun _ hs => absurd hs List.not_mem_nil
  | cons symbol symbols ih =>
      rw [List.foldlM_cons] at h
      obtain ⟨s₁, hone, hrest⟩ := Option.bind_eq_some_iff.mp h
      rw [JitCompiler.linkSymbol] at hone
      obtain ⟨function, hfunction, hone⟩ := Option.bind_eq_some_iff.mp hone
      obtain ⟨entry, hentry, hone⟩ := Option.bind_eq_some_iff.mp hone
      have hjit : s₁.jit = s.jit := by rw [← Option.some.inj hone]
      intro symbol' hsymbol'
      rcases List.mem_cons.mp hsymbol' with rfl | hsymbol'
      · rw [hfunction, hentry]
        exact ⟨rfl, rfl⟩
      · rw [← hjit]
        exact ih hrest symbol' hsymbol'

/-- **The user data of a function** is what its name is bound to, whenever `build_modules` returns. -/
theorem userData_of_buildModules (hids : DistinctIds (C.known ps)) (hs : s.Holding ps)
    {order : List (String × ModuleBuilder)} (horder : order.Perm s.map) {s' : JitCompiler}
    (hdone : C.buildModules order s = .done s') {p : PendingFunction} (hp : p ∈ ps) :
    s'.userData p.function.id = s'.jit.lookup (makeFunctionName p.function) := by
  obtain ⟨⟨jit₁, shared⟩, hshared, hdone⟩ := BuildOutcome.andThen_done hdone
  obtain ⟨⟨jit₂, map⟩, hmap, hlink⟩ := BuildOutcome.andThen_done hdone
  have htells : TellsOf ((shared :: map.map Prod.snd).flatMap (·.jitFunctions)) s.pending := by
    rw [List.flatMap_cons, List.flatMap_map]
    have hall := buildAll_tells (fun nb hnb => by rw [hs.groups nb (horder.subset hnb)]; rfl) hmap
    refine (build_tells (by rw [hs.shared]; rfl) hshared).append ⟨fun q hq => ?_, fun symbol h => ?_⟩
    · exact hall.all q ((horder.flatMap_right _).symm.subset hq)
    · obtain ⟨hname, q, hq, hqf⟩ := hall.only symbol h
      exact ⟨hname, q, (horder.flatMap_right _).subset hq, hqf⟩
  dsimp only at hlink
  rw [Compiler.linkAll] at hlink
  split at hlink
  · rename_i s₁ hfold
    injection hlink with hlink
    rw [foldlM_link] at hfold
    set symbols := (shared :: map.map Prod.snd).flatMap (·.jitFunctions) with hsymbols
    obtain ⟨s₂, hrun, hjit, -, -, huser, -⟩ :=
      JitCompiler.foldlM_linkSymbol symbols _ (found_of_link hfold)
    obtain rfl : s₁ = s₂ := Option.some.inj (hfold.symm.trans hrun)
    rw [← hlink]
    dsimp only
    obtain ⟨symbol, hsymbol, hsf⟩ := htells.all p (hs.mem_pending hp)
    rw [huser p.function.id (s₁.jit.lookup (makeFunctionName p.function)) ?_,
      if_pos ⟨symbol, hsymbol, by rw [hsf]⟩]
    intro symbol' hsymbol' hid
    obtain ⟨hname, q, hq, hqf⟩ := htells.only symbol' hsymbol'
    have hsame : Reference.script symbol'.scriptFunction = .script p.function :=
      hids _ _ ⟨q, hs.pending_subset hq, .inl (by rw [hqf])⟩ ⟨p, hp, .inl rfl⟩
        (by simpa [Role.isFor] using hid)
    injection hsame with hsame
    rw [hname, hsame, hjit]
  · cases hlink

/-! ### Names that do not tell the functions apart -/

/-- A suffix that makes a new name, and ends in one. -/
def endingInOne (taken : List String) (name : String) : String :=
  firstSuffix (taken.map fun t => String.ofList t.toList.dropLast) name ++ "1"

theorem endingInOne_fresh (taken : List String) (name : String) :
    name ++ "." ++ endingInOne taken name ∉ taken := by
  intro hmem
  refine firstSuffix_fresh (taken.map fun t => String.ofList t.toList.dropLast) name
    (List.mem_map.mpr ⟨_, hmem, ?_⟩)
  rw [← String.toList_inj]
  simp only [endingInOne, String.toList_append, String.toList_ofList, String.reduceToList,
    List.append_assoc]
  rw [← List.append_assoc, ← List.append_assoc, List.dropLast_concat, List.append_assoc]

theorem endingInOne_digits (taken : List String) (name : String) :
    endingInOne taken name ≠ "" ∧ ∀ c ∈ (endingInOne taken name).toList, c.isDigit = true := by
  constructor
  · simp [endingInOne]
  · intro c hc
    rw [endingInOne, String.toList_append, List.mem_append] at hc
    rcases hc with hc | hc
    · exact (firstSuffix_digits _ _).2 c hc
    · obtain rfl : c = '1' := by simpa using hc
      rfl

theorem endingInOne_ne_zero (taken : List String) (name : String) :
    endingInOne taken name ≠ "0" := by
  intro h
  have hlast := congrArg (·.toList.getLast?) h
  simp [endingInOne] at hlast

/-- **A naming that gives two functions**, of the modules of two owners, the suffix zero where it
can, and no other function of those modules. -/
def Naming.colliding (owner owner' : Option String) (role role' : Role) : Naming where
  suffix o taken r :=
    if (o = owner ∧ r = role ∨ o = owner' ∧ r = role') ∧ r.name ++ "." ++ "0" ∉ taken then "0"
    else endingInOne taken r.name
  fresh o taken r _ := by
    split
    · rename_i h
      exact h.2
    · exact endingInOne_fresh taken r.name
  digits o taken r := by
    split
    · refine ⟨by simp, fun c hc => ?_⟩
      obtain rfl : c = '0' := by simpa using hc
      rfl
    · exact endingInOne_digits taken r.name

/-- **The name of a function that is not the first one to want its name**, when LLVM has a suffix
for it that it gives to no other function of the module. -/
theorem ModuleBuilder.Sound.name_of_suffix {known : Reference → Prop} {b : ModuleBuilder}
    (h : b.Sound C known) {role : Role} {suffix : String}
    (hpick : ∀ taken, role.name ++ "." ++ suffix ∉ taken →
      C.naming.suffix b.scriptModule taken role = suffix)
    (hother : ∀ taken r, C.naming.suffix b.scriptModule taken r = suffix → r = role)
    {fn : LlvmFunction} (hfn : fn ∈ b.functions) (hrole : fn.role = role)
    (hlater : fn.name ≠ role.name) : fn.name = role.name ++ "." ++ suffix := by
  obtain ⟨l₁, l₂, hl⟩ := List.append_of_mem hfn
  have hsignatures : b.signatures = l₁.map (fun fn => (fn.role, fn.name)) ++
      (fn.role, fn.name) :: l₂.map fun fn => (fn.role, fn.name) := by
    rw [ModuleBuilder.signatures, hl, List.map_append, List.map_cons]
  have hnamed := h.named
  rw [hsignatures] at hnamed
  obtain ⟨hbefore, hname⟩ := hnamed.assigned
  have hmade : role.name ++ "." ++ suffix = C.renamed b.scriptModule [] role := by
    rw [Compiler.renamed, hpick [] List.not_mem_nil]
  -- nothing before it has that name
  have hfree : role.name ++ "." ++ suffix ∉ standardFunctionNames ++
      (l₁.map fun fn : LlvmFunction => (fn.role, fn.name)).map Prod.snd := by
    intro htaken
    rcases List.mem_append.mp htaken with hreserved | htaken
    · obtain ⟨c, hc, hdigit⟩ := C.renamed_last b.scriptModule [] role
      have hlast := runtimeNames_last (List.mem_append_left _ (hmade ▸ hreserved)) hc
      rw [hlast] at hdigit
      cases hdigit
    · obtain ⟨entry, hentry, hsame⟩ := List.mem_map.mp htaken
      rcases hbefore.cases hentry with hwanted | ⟨taken, hrenamed⟩
      · exact C.renamed_ne_name _ _ _ _ (hmade.symm.trans (hsame.symm.trans hwanted))
      · have hsuffix := (Compiler.renamed_eq (hmade.symm.trans (hsame.symm.trans hrenamed))).2
        rw [hpick [] List.not_mem_nil] at hsuffix
        obtain ⟨fn₁, hfn₁, rfl⟩ := List.mem_map.mp hentry
        have hnodup := h.nodup
        rw [ModuleBuilder.roles, hl, List.map_append, List.map_cons, List.nodup_append] at hnodup
        exact hnodup.2.2 _ (List.mem_map_of_mem hfn₁) fn.role List.mem_cons_self
          ((hother taken fn₁.role hsuffix.symm).trans hrole.symm)
  dsimp only at hname
  rw [hrole, UniqueNames.assign] at hname
  split at hname
  · rw [hname, Compiler.renamed, hpick _ hfree]
  · exact absurd hname hlater

/-- What a call of a system function leads to, when all calls reach their functions. -/
theorem Compiler.Built.lookup_of_linked (h : C.Built ps s built) (hwhole : C.Whole ps)
    (hlinked : Linked ps s) {p : PendingFunction} (hp : p ∈ ps) {g : OwnedFunction}
    (hg : .system g ∈ C.asked p.function) :
    ∃ b ∈ built, b.scriptModule = p.function.moduleName ∧ ∃ fn ∈ b.functions,
      fn.role = .reference (.system g) ∧
        s.jit.lookup fn.name = some (.native g.sysFuncIntf.func) := by
  obtain ⟨b, hb, howner, hcompiled⟩ := h.compiled hp
  have hsound := h.sound b hb
  obtain ⟨m, hm⟩ := List.mem_iff_getElem?.mp hb
  obtain ⟨i, hi⟩ := hsound.exists_find hcompiled
  have hrole := hsound.role_of_find hwhole.ids ⟨p, hp, .inl rfl⟩ hi
  rw [b.roles_getElem?] at hrole
  obtain ⟨fn, hfn, hrole⟩ := Option.map_eq_some_iff.mp hrole
  have hasked := hsound.asked fn (List.mem_of_getElem? hfn) p.function hrole
  rw [if_pos hcompiled] at hasked
  rw [← hasked] at hg
  obtain ⟨call, hcall, hcallee⟩ := List.mem_map.mp hg
  have hplace : s.jit.function? m i = some fn := by
    rw [Jit.function?_eq h.holds.modules, hm]
    exact hfn
  obtain ⟨b', -, fn', hm', hfn', hplace', hrole'⟩ := h.callee hwhole.ids hplace hcall
  obtain rfl : b = b' := Option.some.inj (hm.symm.trans hm')
  obtain ⟨d, hd, hreaches⟩ := hlinked.calls m i fn hplace call hcall
  rw [hcallee] at hrole' hreaches
  rw [h.system_resolve hb hfn' hplace' hrole', hreaches] at hd
  exact ⟨b, hb, howner, fn', List.mem_of_getElem? hfn', hrole', hd⟩

/-- **Script functions whose calls are bound have different names**: `link` looks their names up. -/
theorem scripts_of_linksCalls (hwhole : C.Whole ps) (h : C.LinksCalls ps) :
    ∀ p ∈ ps, ∀ q ∈ ps, makeFunctionName p.function = makeFunctionName q.function →
      p.function = q.function := by
  intro p hp q hq hname
  obtain ⟨s, hdone, hlinked⟩ := h C.naming _ (List.Perm.refl _)
  have huser := fun r hr => @userData_of_buildModules C ps (.submitted ps) hwhole.ids
    (JitCompiler.submitted_holding ps) _ (List.Perm.refl _) s hdone r hr
  obtain ⟨d, hd, m, i, fn, rfl, hfn, hrole, -⟩ := hlinked.userData p hp
  obtain ⟨d', hd', m', i', fn', rfl, hfn', hrole', -⟩ := hlinked.userData q hq
  rw [huser p hp, hname, ← huser q hq, hd'] at hd
  obtain ⟨rfl, rfl⟩ : m' = m ∧ i' = i := by
    injection hd with hd
    injection hd with hm hi
    exact ⟨hm, hi⟩
  rw [Option.some.inj (hfn.symm.trans hfn'), hrole'] at hrole
  injection hrole with hrole
  injection hrole with hrole
  exact hrole.symm

/-- **System functions that LLVM may give the same name** have the same native function, if calls of
both reach it. -/
theorem systems_of_linksCalls (hwhole : C.Whole ps) (h : C.LinksCalls ps) :
    ∀ p ∈ ps, ∀ q ∈ ps, p.function.moduleName ≠ q.function.moduleName →
    ∀ g g', .system g ∈ C.asked p.function → .system g' ∈ C.asked q.function →
      g.declaration = g'.declaration →
        (C.AsksFirst ps p.function.moduleName g ↔ C.AsksFirst ps q.function.moduleName g') →
          g.sysFuncIntf.func = g'.sysFuncIntf.func := by
  intro p hp q hq howners g g' hg hg' hdeclaration hboth
  set role : Role := .reference (.system g) with hr
  set role' : Role := .reference (.system g') with hr'
  have hwanted : role.name = role'.name := by
    rw [hr, hr', Role.name, Role.name, makeSystemFunctionName, makeSystemFunctionName, hdeclaration]
  set naming := Naming.colliding p.function.moduleName q.function.moduleName role role' with hnaming
  obtain ⟨s, hdone, hlinked⟩ := h naming _ (List.Perm.refl _)
  have hwhole' := hwhole.withNaming naming
  obtain ⟨s', built, hdone', hbuilt⟩ :=
    hwhole'.exists_built (scripts_of_linksCalls hwhole h) (List.Perm.refl _)
  obtain rfl : s = s' := by
    rw [hdone] at hdone'
    injection hdone'
  obtain ⟨b, hb, howner, fn, hfn, hrole, hlookup⟩ := hbuilt.lookup_of_linked hwhole' hlinked hp hg
  obtain ⟨b', hb', howner', fn', hfn', hrole', hlookup'⟩ :=
    hbuilt.lookup_of_linked hwhole' hlinked hq hg'
  have hfirst := hbuilt.named_iff hb hfn hrole
  have hfirst' := hbuilt.named_iff hb' hfn' hrole'
  rw [howner, hrole] at hfirst
  rw [howner', hrole'] at hfirst'
  have hname : fn.name = fn'.name := by
    by_cases hone : fn.name = role.name
    · rw [hone, hfirst'.mpr (hboth.mp (hfirst.mp hone)), hwanted]
    · have hone' : fn'.name ≠ role'.name := fun h => hone (hfirst.mpr (hboth.mpr (hfirst'.mp h)))
      have hsuffix : ∀ o r taken, (o = p.function.moduleName ∧ r = role ∨
          o = q.function.moduleName ∧ r = role') → r.name ++ "." ++ "0" ∉ taken →
            naming.suffix o taken r = "0" := fun o r taken h hfree => if_pos ⟨h, hfree⟩
      have honly : ∀ o r taken, naming.suffix o taken r = "0" → (o = p.function.moduleName ∧
          r = role ∨ o = q.function.moduleName ∧ r = role') := by
        intro o r taken h
        by_contra hnot
        rw [hnaming, Naming.colliding] at h
        dsimp only at h
        rw [if_neg fun hand => hnot hand.1] at h
        exact endingInOne_ne_zero _ _ h
      rw [(hbuilt.sound b hb).name_of_suffix
          (fun taken hfree => hsuffix _ _ taken (.inl ⟨howner, rfl⟩) hfree)
          (fun taken r h => ((honly _ r taken h).resolve_right
            fun h => howners (howner.symm.trans h.1)).2) hfn hrole hone,
        (hbuilt.sound b' hb').name_of_suffix
          (fun taken hfree => hsuffix _ _ taken (.inr ⟨howner', rfl⟩) hfree)
          (fun taken r h => ((honly _ r taken h).resolve_left
            fun h => howners (h.1.symm.trans howner')).2) hfn' hrole' hone', hwanted]
  rw [hname, hlookup'] at hlookup
  injection hlookup with hlookup
  injection hlookup with hlookup
  exact hlookup.symm

/-- **Linking by name binds every call to its own function** exactly if the names tell the functions
apart. -/
theorem linksCalls_iff (C : Compiler) (ps : List PendingFunction) (hwhole : C.Whole ps) :
    C.LinksCalls ps ↔ C.NamesApart ps := by
  constructor
  · intro h
    exact ⟨scripts_of_linksCalls hwhole h, systems_of_linksCalls hwhole h⟩
  · intro hapart naming order horder
    have hwhole' := hwhole.withNaming naming
    obtain ⟨s, built, hdone, hbuilt⟩ := hwhole'.exists_built hapart.scripts horder
    exact ⟨s, hdone, hbuilt.linked hwhole' ⟨hapart.scripts, hapart.systems⟩⟩

end

/-! ### Two functions of one declaration -/

/-- Two functions that belong to no module, like the factory stubs of an instance of a template with
the classes of the same name of two modules. -/
def sameDeclaration : List PendingFunction :=
  [⟨parameterless 1 none "void f", 0⟩, ⟨parameterless 2 none "void f", 1⟩]

theorem sameDeclaration_whole : returningCompiler.Whole sameDeclaration where
  ids := by
    rintro r r' ⟨p, hp, hr⟩ ⟨p', hp', hr'⟩ hsame
    obtain rfl := hr.resolve_right List.not_mem_nil
    obtain rfl := hr'.resolve_right List.not_mem_nil
    have hall : ∀ p ∈ sameDeclaration, ∀ p' ∈ sameDeclaration,
        p.function.id = p'.function.id → p.function = p'.function := by decide
    rw [hall p hp p' hp' (by simpa [Role.isFor] using hsame)]
  returns := by decide +kernel
  closed _ _ _ hg := absurd hg List.not_mem_nil

/-- Their calls are bound iff their names are different. -/
theorem linksCalls_iff_sameDeclaration :
    returningCompiler.LinksCalls sameDeclaration ↔ returningCompiler.NamesApart sameDeclaration :=
  linksCalls_iff returningCompiler sameDeclaration sameDeclaration_whole

/-- **Linking by name does not bind every call**: the user data of the second function is the code of
the first one. -/
theorem not_linksCalls_sameDeclaration : ¬ ∀ (C : Compiler) (ps : List PendingFunction),
    C.Whole ps → C.LinksCalls ps := by
  intro h
  have hsame := scripts_of_linksCalls sameDeclaration_whole
    (h returningCompiler sameDeclaration sameDeclaration_whole) _ List.mem_cons_self _
    (List.mem_cons_of_mem _ List.mem_cons_self) rfl
  exact absurd (congrArg (·.id) hsame) (by decide)

end Asllvm
