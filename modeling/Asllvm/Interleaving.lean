import Asllvm.Linking

/-!
# Builds between Compilations

The host submits functions and calls `build_modules`, in any order. After each `build_modules` every
function submitted so far should have been translated once, its `asJITFunction` should be the thunk
of its own code and its user data should be set; nothing should be pending.

## Conventions

A run is the list of the calls of the host. An exception that leaves `build_modules` is caught by
the host, which may go on. `asllvm_assert` and `ExitOnError` end the process.

## Main results

* `buildModules_again` — after a `build_modules` that returned, the next one uses a module that has
  been moved into the JIT.
* `settles_of_meets` — in a run in which `build_modules` is called once, when something has been
  submitted, and in which no two functions share an output or a name in different modules, the build
  settles all.
* `not_settles_again` — two builds do not.
-/

namespace Asllvm

/-! ### Runs -/

/-- A call of the host. -/
inductive HostCall
  | jitCompile (p : PendingFunction)
  | buildModules

/-- What has been submitted in a run. -/
def submissions (calls : List HostCall) : List PendingFunction :=
  calls.filterMap fun
    | .jitCompile p => some p
    | .buildModules => none

/-- **The runs of a compiler**, from a state on: the calls of the host, and the state they lead to.
The builders are visited in any order. -/
inductive Compiler.Runs (C : Compiler) (s₀ : JitCompiler) : List HostCall → JitCompiler → Prop
  | start : C.Runs s₀ [] s₀
  | compile {calls : List HostCall} {s : JitCompiler} (h : C.Runs s₀ calls s)
      (p : PendingFunction) : C.Runs s₀ (calls ++ [.jitCompile p]) (s.jitCompile p)
  | build {calls : List HostCall} {s s' : JitCompiler} {order : List (String × ModuleBuilder)}
      (h : C.Runs s₀ calls s) (horder : order.Perm s.map)
      (hdone : C.buildModules order s = .done s') : C.Runs s₀ (calls ++ [.buildModules]) s'
  | throw {calls : List HostCall} {s s' : JitCompiler} {order : List (String × ModuleBuilder)}
      {function : OwnedFunction} (h : C.Runs s₀ calls s) (horder : order.Perm s.map)
      (hthrew : C.buildModules order s = .threw function s') :
      C.Runs s₀ (calls ++ [.buildModules]) s'

/-! ### What a build should leave -/

/-- **The code of a function is there once**: one function of one module has it, and nothing else. -/
def Jit.TranslatedOnce (jit : Jit) (f : OwnedFunction) : Prop :=
  ∃ m i fn, jit.function? m i = some fn ∧ fn.role = .reference (.script f) ∧ fn.bodies = [f] ∧
    ∀ m' i' fn', jit.function? m' i' = some fn' → (∀ g, fn'.role ≠ .vmEntryThunk g) →
      f ∈ fn'.bodies → m' = m ∧ i' = i

/-- A definition is the thunk of a function, and calls the code of that function. -/
def Jit.IsThunkOf (jit : Jit) (d : Definition) (f : OwnedFunction) : Prop :=
  ∃ m i j fn thunk, d = .code m j ∧ jit.function? m j = some thunk ∧
    thunk.role = .vmEntryThunk f ∧ thunk.bodies = [f] ∧ thunk.calls = [(.script f, i)] ∧
    jit.function? m i = some fn ∧ fn.role = .reference (.script f) ∧ fn.bodies = [f]

/-- **A compiler that has settled what was submitted**, and did not do anything if nothing was
pending. -/
structure AllSettled (ps : List PendingFunction) (s s' : JitCompiler) : Prop where
  translated : ∀ p ∈ ps, s'.jit.TranslatedOnce p.function
  outputs : ∀ p ∈ ps, ∃ d, s'.outputs p.jitFunction = some d ∧ s'.jit.IsThunkOf d p.function
  userData : ∀ p ∈ ps, (s'.userData p.function.id).isSome = true
  nothingPending : s'.pending = []
  idle : s.pending = [] → s' = s

/-- **A build settles what was submitted**, or it ends the process because the translation of a
function that was submitted fails an assertion or is undefined. There is no other way for a build to
end. -/
inductive Settles (C : Compiler) (ps : List PendingFunction) (s : JitCompiler) :
    BuildOutcome JitCompiler → Prop
  | done {s' : JitCompiler} (h : AllSettled ps s s') : Settles C ps s (.done s')
  | aborted (h : ∃ p ∈ ps, C.completion p.function = .aborted) : Settles C ps s .aborted

/-! ### When it does -/

/-- The output of a function is its own, and each function has one. -/
def OwnOutputs (ps : List PendingFunction) : Prop :=
  ∀ p ∈ ps, ∀ q ∈ ps, p.function = q.function ↔ p.jitFunction = q.jitFunction

/-- **What a build needs**, after some calls: it is the first one, something has been submitted, each
function with an output of its own, and the functions can be built. -/
structure Compiler.BuildMeets (C : Compiler) (calls : List HostCall) : Prop where
  first : HostCall.buildModules ∉ calls
  submitted : submissions calls ≠ []
  outputs : OwnOutputs (submissions calls)
  buildable : C.Buildable (submissions calls)

/-- **The builds of a run** all have what they need. -/
def Compiler.Meets (C : Compiler) (calls : List HostCall) : Prop :=
  ∀ before after, calls = before ++ .buildModules :: after → C.BuildMeets before

section

variable {C : Compiler} {calls : List HostCall} {s : JitCompiler}

theorem submissions_append (calls : List HostCall) (p : PendingFunction) :
    submissions (calls ++ [.jitCompile p]) = submissions calls ++ [p] := by
  simp [submissions]

/-- Before the first build, the compiler holds what was submitted. -/
theorem Compiler.Runs.holding (h : C.Runs .new calls s) (hfirst : HostCall.buildModules ∉ calls) :
    s.Holding (submissions calls) := by
  induction h with
  | start => exact JitCompiler.new_holding
  | compile h p ih =>
      rw [submissions_append]
      exact (ih fun hmem => hfirst (List.mem_append_left _ hmem)).jitCompile p
  | build => exact absurd (List.mem_append_right _ (List.mem_singleton_self _)) hfirst
  | throw => exact absurd (List.mem_append_right _ (List.mem_singleton_self _)) hfirst

variable {ps : List PendingFunction} {built : List ModuleBuilder}

/-- A function whose code another one has is that one, and the same one. -/
theorem ModuleBuilder.Sound.role_of_bodies {known : Reference → Prop} {b : ModuleBuilder}
    (h : b.Sound C known) {fn : LlvmFunction} (hfn : fn ∈ b.functions)
    (hcode : ∀ g, fn.role ≠ .vmEntryThunk g) {f : OwnedFunction} (hf : f ∈ fn.bodies) :
    fn.role = .reference (.script f) ∧ b.isCompiled f = true := by
  have hbodies := h.bodies fn hfn
  rcases hrole : fn.role with (g | g) | g <;> rw [hrole] at hbodies
  · by_cases hg : b.isCompiled g = true
    · simp only [hg, if_true] at hbodies
      rw [hbodies, List.mem_singleton] at hf
      rw [hf]
      exact ⟨rfl, hg⟩
    · simp only [hg] at hbodies
      rw [hbodies] at hf
      cases hf
  · rw [hbodies] at hf
    cases hf
  · exact absurd hrole (hcode g)

/-- **A function that was submitted is translated once.** -/
theorem Compiler.Built.translatedOnce (h : C.Built ps s built) (hids : DistinctIds (C.known ps))
    {p : PendingFunction} (hp : p ∈ ps) : s.jit.TranslatedOnce p.function := by
  obtain ⟨b, hb, -, -, howner, -, m, i, -, fn, -, hm, hfn, hrole, hbodies, -⟩ :=
    h.exists_symbol hids hp
  refine ⟨m, i, fn, hfn, hrole, hbodies, ?_⟩
  intro m' i' fn' hfn' hcode hmem
  have hplace' := hfn'
  rw [Jit.function?_eq h.holds.modules] at hplace'
  obtain ⟨b', hb', hi'⟩ := Option.bind_eq_some_iff.mp hplace'
  have hbmem := List.mem_of_getElem? hb'
  obtain ⟨hrole', hcompiled'⟩ :=
    (h.sound b' hbmem).role_of_bodies (List.mem_of_getElem? hi') hcode hmem
  obtain ⟨-, -, -, howner'⟩ := h.submitted hbmem hcompiled'
  have hmm : m' = m := h.unique hb' hm (howner'.symm.trans howner.symm)
  subst hmm
  obtain rfl : b' = b := Option.some.inj (hb'.symm.trans hm)
  refine ⟨rfl, ?_⟩
  rw [Jit.function?_eq h.holds.modules, hm] at hfn
  have hr : b'.roles[i]? = some (.reference (.script p.function)) := by
    rw [b'.roles_getElem?, show b'.functions[i]? = some fn from hfn, ← hrole]
    rfl
  have hr' : b'.roles[i']? = some (.reference (.script p.function)) := by
    rw [b'.roles_getElem?, hi', ← hrole']
    rfl
  obtain ⟨hlt, -⟩ := List.getElem?_eq_some_iff.mp hr'
  exact (List.getElem?_inj hlt (h.sound b' hb).nodup).mp (hr'.trans hr.symm)

/-- **The output of a function is its own thunk**, when no two functions share one. -/
theorem Compiler.Built.output (h : C.Built ps s built) (hids : DistinctIds (C.known ps))
    (houtputs : OwnOutputs ps) {p : PendingFunction} (hp : p ∈ ps) :
    ∃ d, s.outputs p.jitFunction = some d ∧ s.jit.IsThunkOf d p.function := by
  obtain ⟨b, hb, symbol, hsymbol, howner, hsf, m, i, j, fn, thunk, hm, hfn, hrole, hbodies, hthunk,
    rfl, hentry⟩ := h.exists_symbol hids hp
  have hmem : symbol ∈ built.flatMap (·.jitFunctions) := List.mem_flatMap.mpr ⟨b, hb, hsymbol⟩
  have hout : symbol.jitFunction = p.jitFunction := by
    obtain ⟨-, -, -, -, -, q, hq, hqf, hqo⟩ := h.submitted_symbol hmem
    rw [← hqo]
    exact (houtputs q hq p hp).mp (hqf.trans hsf)
  have hvalue := h.outputs p.jitFunction (some (.code m j)) (by
    intro symbol' hmem' hout'
    obtain ⟨b', hb', hsymbol', -, howner', q, hq, hqf, hqo⟩ := h.submitted_symbol hmem'
    have hsame : symbol'.scriptFunction = p.function := by
      rw [← hqf]
      exact (houtputs q hq p hp).mpr (hqo.trans hout')
    -- the module of the function has one symbol for it
    rw [hsame] at howner'
    obtain ⟨m', hm'⟩ := List.mem_iff_getElem?.mp hb'
    obtain rfl := h.unique hm' hm (howner'.trans howner.symm)
    obtain rfl : b' = b := Option.some.inj (hm'.symm.trans hm)
    have hsymbols : symbol' = symbol :=
      List.inj_on_of_nodup_map (h.sound b' hb).compiledOnce hsymbol' hsymbol
        (hsame.trans hsf.symm)
    rw [hsymbols]
    exact hentry)
  rw [if_pos ⟨symbol, hmem, hout⟩] at hvalue
  exact ⟨_, hvalue, m, i, j, fn, _, rfl, hthunk, rfl, rfl, rfl, hfn, hrole, hbodies⟩

/-- **A build settles what was submitted**, if it is the first one and has what it needs. -/
theorem settles_of_holding (hids : DistinctIds (C.known ps)) (h : C.Buildable ps)
    (houtputs : OwnOutputs ps) (hne : ps ≠ []) (hs : s.Holding ps)
    {order : List (String × ModuleBuilder)} (horder : order.Perm s.map) :
    Settles C ps s (C.buildModules order s) := by
  rcases buildModules_built hids h hs horder with haborted | ⟨s', built, hdone, hbuilt, -⟩
  · rw [haborted]
    refine .aborted ?_
    by_contra hnone
    exact buildModules_ne_aborted hs (fun p hp hp' => hnone ⟨p, hp, hp'⟩) horder haborted
  · rw [hdone]
    refine .done ⟨fun p hp => hbuilt.translatedOnce hids hp,
      fun p hp => hbuilt.output hids houtputs hp, fun p hp => ?_, hbuilt.nothingPending,
      fun hnothing => ?_⟩
    · obtain ⟨b, hb, -, hcompiled⟩ := hbuilt.compiled hp
      obtain ⟨m, i, -, -, -, hlookup, -⟩ := exists_lookup_name hids h hbuilt.holds hb
        (hbuilt.sound b hb) (hbuilt.builtFrom b hb) hcompiled
      rw [hbuilt.userData_eq hids hp, hlookup]
      rfl
    · obtain ⟨p, hp⟩ := List.exists_mem_of_ne_nil ps hne
      have hpending := hs.mem_pending hp
      rw [hnothing] at hpending
      cases hpending

/-- **In a run whose builds have what they need**, each build settles what has been submitted so
far, whatever the order in which the builders are visited. -/
theorem settles_of_meets (hruns : C.Runs .new calls s)
    (hids : DistinctIds (C.known (submissions calls)))
    (hmeets : C.Meets (calls ++ [.buildModules]))
    {order : List (String × ModuleBuilder)} (horder : order.Perm s.map) :
    Settles C (submissions calls) s (C.buildModules order s) := by
  have hneeds := hmeets calls [] rfl
  exact settles_of_holding hids hneeds.buildable hneeds.outputs hneeds.submitted
    (hruns.holding hneeds.first) horder

/-! ### The second build -/

/-- A builder whose module has been moved cannot be built. -/
theorem build_of_moved (C : Compiler) (jit : Jit) {b : ModuleBuilder} (hmoved : b.moved = true) :
    C.build jit b = .undefined := by
  have hloop : ∀ ps : List PendingFunction, C.buildPending ps b = .done b ∨
      C.buildPending ps b = .undefined := by
    intro ps
    induction ps with
    | nil => exact .inl rfl
    | cons p ps ih =>
        rw [Compiler.buildPending]
        split
        · exact ih
        · right
          rw [Compiler.buildFunction, if_pos hmoved]
  rw [Compiler.build, Compiler.buildFunctions]
  rcases hloop b.pendingFunctions with hdone | hundefined
  · rw [hdone]
    dsimp only [BuildOutcome.andThen]
    rw [Compiler.addModule, if_pos hmoved]
  · rw [hundefined]
    rfl

/-- A build takes the module of its builder away. -/
theorem moved_of_build {jit jit' : Jit} {b b' : ModuleBuilder}
    (h : C.build jit b = .done (jit', b')) : b'.moved = true := by
  obtain ⟨b₁, -, hadd⟩ := BuildOutcome.andThen_done h
  rw [Compiler.addModule] at hadd
  split at hadd
  · cases hadd
  · split at hadd
    · injection hadd with hadd
      rw [← (Prod.mk.inj hadd).2]
    · cases hadd

theorem sharedModuleBuilder_of_link {s' : JitCompiler} (builders : List ModuleBuilder)
    (h : builders.foldlM JitCompiler.link s = some s') :
    s'.sharedModuleBuilder = s.sharedModuleBuilder := by
  rw [foldlM_link] at h
  generalize builders.flatMap (·.jitFunctions) = symbols at h
  induction symbols generalizing s with
  | nil => rw [← Option.some.inj h]
  | cons symbol symbols ih =>
      rw [List.foldlM_cons] at h
      obtain ⟨s₁, hone, hrest⟩ := Option.bind_eq_some_iff.mp h
      rw [ih hrest]
      rw [JitCompiler.linkSymbol] at hone
      obtain ⟨function, -, hone⟩ := Option.bind_eq_some_iff.mp hone
      obtain ⟨entry, -, hone⟩ := Option.bind_eq_some_iff.mp hone
      rw [← Option.some.inj hone]

/-- **After `build_modules`** the module of the shared builder is gone. -/
theorem moved_of_buildModules {order : List (String × ModuleBuilder)} {s' : JitCompiler}
    (h : C.buildModules order s = .done s') : s'.sharedModuleBuilder.moved = true := by
  obtain ⟨⟨jit, shared⟩, hshared, h⟩ := BuildOutcome.andThen_done h
  obtain ⟨⟨jit', map⟩, -, h⟩ := BuildOutcome.andThen_done h
  dsimp only at h
  rw [Compiler.linkAll] at h
  split at h
  · rename_i s₁ hlink
    injection h with h
    have hsame := sharedModuleBuilder_of_link _ hlink
    rw [← h]
    dsimp only
    rw [hsame]
    exact moved_of_build hshared
  · cases h

theorem buildModules_of_moved (hmoved : s.sharedModuleBuilder.moved = true)
    (order : List (String × ModuleBuilder)) : C.buildModules order s = .undefined := by
  rw [Compiler.buildModules, build_of_moved C s.jit hmoved]
  rfl

/-- The module of the shared builder does not come back. -/
theorem Compiler.Runs.moved {s₁ s₂ : JitCompiler} (h : C.Runs s₁ calls s₂)
    (hmoved : s₁.sharedModuleBuilder.moved = true) : s₂.sharedModuleBuilder.moved = true := by
  induction h with
  | start => exact hmoved
  | compile h p ih =>
      rw [JitCompiler.jitCompile]
      split <;> exact ih
  | build h horder hdone ih =>
      rw [buildModules_of_moved ih] at hdone
      cases hdone
  | throw h horder hthrew ih =>
      rw [buildModules_of_moved ih] at hthrew
      cases hthrew

/-- **No run builds twice**: after a `build_modules` that returned, whatever else is submitted, the
next one uses the module that has been moved. -/
theorem buildModules_again {order : List (String × ModuleBuilder)} {s₁ s₂ : JitCompiler}
    (hdone : C.buildModules order s = .done s₁) (hruns : C.Runs s₁ calls s₂)
    (order' : List (String × ModuleBuilder)) : C.buildModules order' s₂ = .undefined :=
  buildModules_of_moved (hruns.moved (moved_of_buildModules hdone)) order'

end

/-! ### A function without parameters -/

/-- A function that belongs to no module, submitted for the first output. -/
def sharedSubmission : PendingFunction := ⟨parameterless 1 none "void f", 0⟩

theorem returningCompiler_returns :
    returningCompiler.completion sharedSubmission.function = .returned := by
  decide +kernel

theorem returningCompiler_ids : DistinctIds (returningCompiler.known [sharedSubmission]) := by
  rintro r r' ⟨p, hp, hr⟩ ⟨p', hp', hr'⟩ -
  obtain rfl := List.mem_singleton.mp hp
  obtain rfl := List.mem_singleton.mp hp'
  exact (hr.resolve_right List.not_mem_nil).trans (hr'.resolve_right List.not_mem_nil).symm

theorem returningCompiler_buildable : returningCompiler.Buildable [sharedSubmission] where
  stops owner := by
    have hnone : (ownedBy owner [sharedSubmission]).find?
        (returningCompiler.stopsAt (submittedTo owner (ownedBy owner [sharedSubmission]))) =
          none := by
      rw [List.find?_eq_none]
      intro p hp
      obtain rfl := List.mem_singleton.mp (List.mem_of_mem_filter hp)
      simp [Compiler.stopsAt, returningCompiler_returns]
    intro h
    rw [Compiler.stops] at h
    rw [show (submittedTo owner (ownedBy owner [sharedSubmission])).pendingFunctions =
      ownedBy owner [sharedSubmission] from rfl, hnone] at h
    cases h
  owners p hp q hq _ := by
    rw [List.mem_singleton.mp hp, List.mem_singleton.mp hq]
  first p hp g hg := by
    obtain rfl := List.mem_singleton.mp hp
    refine ⟨sharedSubmission, hp, ?_⟩
    have hrequests : (ownedBy sharedSubmission.function.moduleName [sharedSubmission]).flatMap
        (fun q => returningCompiler.requests q.function) =
          [.reference (.script sharedSubmission.function),
            .vmEntryThunk sharedSubmission.function] := rfl
    rw [hrequests] at hg
    simpa [Role.name] using hg

/-- The compiler it has been submitted to. -/
def submittedCompiler : JitCompiler := JitCompiler.new.jitCompile sharedSubmission

theorem submittedCompiler_runs :
    returningCompiler.Runs .new [.jitCompile sharedSubmission] submittedCompiler :=
  @Compiler.Runs.compile returningCompiler .new [] .new .start sharedSubmission

theorem submittedCompiler_outputs : OwnOutputs [sharedSubmission] := by
  intro p hp q hq
  rw [List.mem_singleton.mp hp, List.mem_singleton.mp hq]
  exact iff_of_true rfl rfl

theorem submittedCompiler_meets :
    returningCompiler.Meets ([.jitCompile sharedSubmission] ++ [.buildModules]) := by
  intro before after h
  obtain rfl : before = [.jitCompile sharedSubmission] := by
    rcases before with _ | ⟨c, before⟩
    · simp at h
    · rcases before with _ | ⟨c', before⟩ <;> simp_all
  exact ⟨by simp, List.cons_ne_nil _ _, submittedCompiler_outputs, returningCompiler_buildable⟩

theorem submittedCompiler_built : ∃ s,
    returningCompiler.buildModules submittedCompiler.map submittedCompiler = .done s := by
  have hholding : submittedCompiler.Holding [sharedSubmission] :=
    JitCompiler.new_holding.jitCompile sharedSubmission
  rcases buildModules_built returningCompiler_ids returningCompiler_buildable hholding
    (List.Perm.refl _) with haborted | ⟨s, -, hdone, -, -⟩
  · refine absurd haborted (buildModules_ne_aborted hholding (fun p hp => ?_) (List.Perm.refl _))
    rw [List.mem_singleton.mp hp, returningCompiler_returns]
    exact Completion.noConfusion
  · exact ⟨s, hdone⟩

/-- **One function, one build**: it returns, and the function is settled. -/
theorem settles_of_meets_returning : ∃ s,
    returningCompiler.buildModules submittedCompiler.map submittedCompiler = .done s ∧
      AllSettled (submissions [.jitCompile sharedSubmission]) submittedCompiler s := by
  obtain ⟨s, hdone⟩ := submittedCompiler_built
  have hsettles := settles_of_meets submittedCompiler_runs returningCompiler_ids
    submittedCompiler_meets (List.Perm.refl _)
  rw [hdone] at hsettles
  cases hsettles with
  | done h => exact ⟨s, hdone, h⟩

/-- **Nothing can be built after that**, in particular not at once. -/
theorem buildModules_again_returning : ∃ s,
    returningCompiler.buildModules submittedCompiler.map submittedCompiler = .done s ∧
      returningCompiler.buildModules s.map s = .undefined := by
  obtain ⟨s, hdone⟩ := submittedCompiler_built
  exact ⟨s, hdone, buildModules_again hdone .start s.map⟩

/-- **Two builds are not settled**: the second one uses a module that has been moved. -/
theorem not_settles_again : ¬ ∀ (C : Compiler) (calls : List HostCall) (s : JitCompiler),
    C.Runs .new calls s → DistinctIds (C.known (submissions calls)) →
      ∀ order : List (String × ModuleBuilder), order.Perm s.map →
        Settles C (submissions calls) s (C.buildModules order s) := by
  intro h
  obtain ⟨s, hdone⟩ := submittedCompiler_built
  have hsettles := h returningCompiler _ s
    (.build submittedCompiler_runs (List.Perm.refl _) hdone) returningCompiler_ids s.map
    (List.Perm.refl _)
  rw [buildModules_of_moved (moved_of_buildModules hdone)] at hsettles
  cases hsettles

end Asllvm
