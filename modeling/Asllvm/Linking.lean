import Mathlib.Tactic.Set
import Asllvm.BuiltModules

/-!
# Linking

What the symbols of the JIT are bound to, after builders have been built one after the other.

* `Jit.Holds` — the invariant of the JIT: it owns the modules of the builders, every function with
  code is bound to its name, and so is every system function.

## Main results

* `addModule_holds` — handing over a module keeps the invariant, if no name is defined twice.
-/

namespace Asllvm

/-! ### Lookups -/

theorem mem_of_lookup {α β : Type} [BEq α] [LawfulBEq α] {l : List (α × β)} {a : α} {v : β}
    (h : l.lookup a = some v) : (a, v) ∈ l := by
  obtain ⟨l₁, l₂, rfl, -⟩ := List.lookup_eq_some_iff.mp h
  exact List.mem_append_right l₁ List.mem_cons_self

/-- What is listed once is found. -/
theorem lookup_of_mem {α β : Type} [BEq α] [LawfulBEq α] {l : List (α × β)} {a : α} {v : β}
    (hnodup : (l.map Prod.fst).Nodup) (h : (a, v) ∈ l) : l.lookup a = some v := by
  obtain ⟨l₁, l₂, rfl⟩ := List.append_of_mem h
  refine List.lookup_eq_some_iff.mpr ⟨l₁, l₂, rfl, fun p hp => ?_⟩
  rw [List.map_append, List.nodup_append] at hnodup
  have hne := hnodup.2.2 p.1 (List.mem_map_of_mem hp) a (by simp)
  simpa using hne.symm

/-- Keeping some of the keys keeps what is found under them. -/
theorem lookup_filter {α β : Type} [DecidableEq α] (keep : α → Bool) (l : List (α × β))
    (a : α) : (l.filter fun p => keep p.1).lookup a = if keep a then l.lookup a else none := by
  induction l with
  | nil => simp
  | cons p l ih =>
      obtain ⟨k, v⟩ := p
      rw [List.filter_cons]
      have hcons : ((k, v) :: l).lookup a = if a = k then some v else l.lookup a := by
        by_cases hak : a = k
        · simp [hak]
        · rw [List.lookup_cons, beq_false_of_ne hak, if_neg hak]
      by_cases hak : a = k
      · subst hak
        cases hkeep : keep a with
        | true => simp
        | false => simpa [hkeep] using ih
      · cases hkeep : keep k with
        | true => rw [if_pos rfl, hcons, List.lookup_cons, beq_false_of_ne hak, ih, if_neg hak]
        | false => rw [if_neg (by simp), hcons, ih, if_neg hak]

/-! ### The invariant of the JIT -/

namespace Jit

variable {jit jit' : Jit}

/-- What `link_symbols` wants to define. -/
def wantedSymbols (functions : List LlvmFunction) : List (String × Definition) :=
  systemSymbols functions ++ runtimeNames.map fun name => (name, Definition.runtime name)

theorem lookup_linkSymbols (jit : Jit) (functions : List LlvmFunction) (name : String) :
    (jit.linkSymbols functions).lookup name =
      (jit.lookup name).or ((wantedSymbols functions).lookup name) := by
  have hsymbols : (jit.linkSymbols functions).symbols = jit.symbols ++
      (wantedSymbols functions).filter fun s => (jit.lookup s.1).isNone := rfl
  rw [lookup, hsymbols, List.lookup_append, lookup_filter fun n => (jit.lookup n).isNone]
  cases hname : jit.lookup name with
  | some d =>
      rw [lookup] at hname
      rw [hname]
      rfl
  | none =>
      rw [lookup] at hname
      rw [hname]
      rfl

theorem mem_moduleSymbols {module : ℕ} {functions : List LlvmFunction} {name : String}
    {d : Definition} : (name, d) ∈ moduleSymbols module functions ↔
      ∃ (i : ℕ) (fn : LlvmFunction), functions[i]? = some fn ∧ fn.isDefined = true ∧
        fn.name = name ∧ d = .code module i := by
  rw [moduleSymbols, List.mem_filterMap]
  constructor
  · rintro ⟨⟨fn, i⟩, hmem, h⟩
    dsimp only at h
    split at h
    · rename_i hdefined
      obtain ⟨rfl, rfl⟩ := Prod.mk.inj (Option.some.inj h)
      exact ⟨i, fn, List.mem_zipIdx_iff_getElem?.mp hmem, hdefined, rfl, rfl⟩
    · cases h
  · rintro ⟨i, fn, hi, hdefined, rfl, rfl⟩
    exact ⟨(fn, i), List.mem_zipIdx_iff_getElem?.mpr hi, by simp [hdefined]⟩

/-- The names that a module defines are different, if the names of its functions are. -/
theorem moduleSymbols_nodup (module : ℕ) {functions : List LlvmFunction}
    (hnodup : (functions.map (·.name)).Nodup) :
    ((moduleSymbols module functions).map Prod.fst).Nodup := by
  refine List.Nodup.sublist ?_ hnodup
  rw [moduleSymbols]
  generalize 0 = k
  induction functions generalizing k with
  | nil => simp
  | cons fn functions ih =>
      rw [List.zipIdx_cons, List.filterMap_cons]
      have hrest := ih (List.nodup_cons.mp hnodup).2 (k + 1)
      by_cases hdefined : fn.isDefined = true
      · simpa [hdefined] using hrest
      · simpa [hdefined] using hrest.trans (List.sublist_cons_self _ _)

/-- **The invariant of the JIT**, after the given builders have been built. -/
structure Holds (jit : Jit) (built : List ModuleBuilder) : Prop where
  modules : jit.modules = built.map (·.functions)
  code : ∀ m i fn, jit.function? m i = some fn → fn.isDefined = true →
    jit.lookup fn.name = some (.code m i)
  system : ∀ b ∈ built, ∀ fn ∈ b.functions, ∀ f, fn.role = .reference (.system f) →
    ∃ v, jit.lookup fn.name = some (.native v)
  origin : ∀ name d, jit.lookup name = some d →
    match d with
    | .code m i => ∃ fn, jit.function? m i = some fn ∧ fn.isDefined = true ∧ fn.name = name
    | .native v => ∃ b ∈ built, ∃ fn ∈ b.functions, ∃ f, fn.role = .reference (.system f) ∧
        fn.name = name ∧ f.sysFuncIntf.func = v
    | .runtime _ => name ∈ runtimeNames

theorem new_holds : (⟨[], []⟩ : Jit).Holds [] where
  modules := rfl
  code m i fn h := by simp [function?] at h
  system _ h := absurd h List.not_mem_nil
  origin name d h := by simp [lookup] at h

theorem function?_eq {built : List ModuleBuilder} (h : jit.modules = built.map (·.functions))
    (m i : ℕ) : jit.function? m i = (built[m]?).bind fun b => b.functions[i]? := by
  rw [function?, h, List.getElem?_map]
  cases built[m]? <;> rfl

theorem mem_systemSymbols {functions : List LlvmFunction} {name : String} {d : Definition} :
    (name, d) ∈ systemSymbols functions ↔ ∃ fn ∈ functions, ∃ f,
      fn.role = .reference (.system f) ∧ fn.name = name ∧ d = .native f.sysFuncIntf.func := by
  rw [systemSymbols, List.mem_filterMap]
  constructor
  · rintro ⟨fn, hfn, h⟩
    split at h
    · rename_i f hrole
      obtain ⟨rfl, rfl⟩ := Prod.mk.inj (Option.some.inj h)
      exact ⟨fn, hfn, f, hrole, rfl, rfl⟩
    · cases h
  · rintro ⟨fn, hfn, f, hrole, rfl, rfl⟩
    exact ⟨fn, hfn, by rw [hrole]⟩

/-- The names of the system functions of a module are different. -/
theorem systemSymbols_nodup {functions : List LlvmFunction}
    (hnodup : (functions.map (·.name)).Nodup) :
    ((systemSymbols functions).map Prod.fst).Nodup := by
  refine List.Nodup.sublist ?_ hnodup
  rw [systemSymbols]
  induction functions with
  | nil => exact List.Sublist.refl _
  | cons fn functions ih =>
      rw [List.filterMap_cons]
      have hrest := ih (List.nodup_cons.mp hnodup).2
      split
      · exact hrest.trans (List.sublist_cons_self _ _)
      · rename_i s hs
        split at hs
        · obtain rfl := Option.some.inj hs
          exact hrest.cons_cons _
        · cases hs

end Jit

/-! ### Handing over a module -/

section

variable {C : Compiler} {known : Reference → Prop} {b b' : ModuleBuilder}

/-- A function with code is no system function. -/
theorem ModuleBuilder.Sound.not_system_of_defined (h : b.Sound C known) {fn : LlvmFunction}
    (hfn : fn ∈ b.functions) (hdefined : fn.isDefined = true) (f : OwnedFunction) :
    fn.role ≠ .reference (.system f) := by
  intro hrole
  have hbodies := h.bodies fn hfn
  rw [hrole] at hbodies
  rw [LlvmFunction.isDefined, hbodies] at hdefined
  simp at hdefined

/-- A system function has the name of a system function only. -/
theorem ModuleBuilder.Sound.system_apart (h : b.Sound C known) (h' : b'.Sound C known)
    {fn fn' : LlvmFunction} (hfn : fn ∈ b.functions) (hfn' : fn' ∈ b'.functions)
    (hrole : ∀ f, fn.role ≠ .reference (.system f)) {f' : OwnedFunction}
    (hrole' : fn'.role = .reference (.system f')) : fn.name ≠ fn'.name := by
  intro heq
  have hname := Role.name_eq (h.name_eq h' hfn hfn' heq).1
  rw [hrole'] at hname
  rcases hr : fn.role with (g | g) | g <;> rw [hr] at hname
  · exact hname
  · exact hrole g hr
  · exact hname

variable {jit : Jit} {built : List ModuleBuilder}

/-- A name that is bound already, when it is the one of a function of a new module, is bound to a
function of the same kind. -/
theorem Jit.Holds.origin_of_name (h : jit.Holds built)
    (hsound : ∀ b ∈ built, b.Sound C known) (hb : b.Sound C known) {fn : LlvmFunction}
    (hfn : fn ∈ b.functions) {d : Definition} (hd : jit.lookup fn.name = some d) :
    ∃ b₀ ∈ built, ∃ fn₀ ∈ b₀.functions, fn₀.name = fn.name ∧
      ((∃ f, fn.role = .reference (.system f)) → ∃ v, d = .native v) ∧
      ((∀ f, fn.role ≠ .reference (.system f)) → fn₀.isDefined = true) := by
  have horigin := h.origin _ d hd
  cases d with
  | code m i =>
      obtain ⟨fn₀, hfn₀, hdefined, hname⟩ := horigin
      rw [Jit.function?_eq h.modules] at hfn₀
      obtain ⟨b₀, hb₀, hi⟩ := Option.bind_eq_some_iff.mp hfn₀
      have hmem := List.mem_of_getElem? hi
      have hmem₀ := List.mem_of_getElem? hb₀
      refine ⟨b₀, hmem₀, fn₀, hmem, hname, ?_, fun _ => hdefined⟩
      rintro ⟨f, hrole⟩
      exact absurd hname ((hsound b₀ hmem₀).system_apart hb hmem hfn
        ((hsound b₀ hmem₀).not_system_of_defined hmem hdefined) hrole)
  | native v =>
      obtain ⟨b₀, hmem₀, fn₀, hmem, f, hrole, hname, -⟩ := horigin
      refine ⟨b₀, hmem₀, fn₀, hmem, hname, fun _ => ⟨v, rfl⟩, fun hother => ?_⟩
      exact absurd hname.symm (hb.system_apart (hsound b₀ hmem₀) hfn hmem hother hrole)
  | runtime r => exact absurd horigin (hb.name_not_runtime hfn)

/-- **Handing over a module** keeps the invariant of the JIT, if the names of the functions with
code are new ones. -/
theorem addModule_holds (h : jit.Holds built) (hsound : ∀ b ∈ built, b.Sound C known)
    (hb : b.Sound C known) (hmoved : b.moved = false)
    (hapart : ∀ b₀ ∈ built, ∀ fn₀ ∈ b₀.functions, fn₀.isDefined = true →
      ∀ fn ∈ b.functions, fn.isDefined = true → fn₀.name ≠ fn.name) :
    ∃ jit', Compiler.addModule jit b = .done (jit', { b with moved := true }) ∧
      jit'.Holds (built ++ [b]) := by
  have hnames := hb.names_nodup
  have hnew : ∀ fn ∈ b.functions, fn.isDefined = true →
      (jit.linkSymbols b.functions).lookup fn.name = none := by
    intro fn hfn hdefined
    have hrole := hb.not_system_of_defined hfn hdefined
    rw [Jit.lookup_linkSymbols]
    have hold : jit.lookup fn.name = none := by
      rw [Option.eq_none_iff_forall_ne_some]
      intro d hd
      obtain ⟨b₀, hb₀, fn₀, hfn₀, hname, -, hcode⟩ := h.origin_of_name hsound hb hfn hd
      exact hapart b₀ hb₀ fn₀ hfn₀ (hcode hrole) fn hfn hdefined hname
    have hwanted : (Jit.wantedSymbols b.functions).lookup fn.name = none := by
      rw [Option.eq_none_iff_forall_ne_some]
      intro d hd
      rcases List.mem_append.mp (mem_of_lookup hd) with hmem | hmem
      · obtain ⟨fn', hfn', f, hrole', hname, -⟩ := Jit.mem_systemSymbols.mp hmem
        exact hb.system_apart hb hfn hfn' hrole hrole' hname.symm
      · obtain ⟨n, hn, heq⟩ := List.mem_map.mp hmem
        exact hb.name_not_runtime hfn ((Prod.mk.inj heq).1 ▸ hn)
    rw [hold, hwanted]
    rfl
  -- the symbols that the module defines are new ones
  have hmoduleNew : ((Jit.moduleSymbols (jit.linkSymbols b.functions).modules.length b.functions).all
      fun s => ((jit.linkSymbols b.functions).lookup s.1).isNone) = true := by
    rw [List.all_eq_true]
    rintro ⟨name, d⟩ hmem
    obtain ⟨i, fn, hi, hdefined, rfl, -⟩ := Jit.mem_moduleSymbols.mp hmem
    rw [hnew fn (List.mem_of_getElem? hi) hdefined]
    rfl
  have hlength : (jit.linkSymbols b.functions).modules.length = built.length := by
    have hmodules : (jit.linkSymbols b.functions).modules = built.map (·.functions) := h.modules
    rw [hmodules, List.length_map]
  rw [hlength] at hmoduleNew
  set jit' : Jit := ⟨(jit.linkSymbols b.functions).modules ++ [b.functions],
    (jit.linkSymbols b.functions).symbols ++ Jit.moduleSymbols built.length b.functions⟩ with hjit'
  have hlookup : ∀ name, jit'.lookup name = (jit.lookup name).or
      (((Jit.wantedSymbols b.functions).lookup name).or
        ((Jit.moduleSymbols built.length b.functions).lookup name)) := by
    intro name
    rw [← Option.or_assoc, ← Jit.lookup_linkSymbols]
    exact List.lookup_append
  refine ⟨jit', ?_, ?_⟩
  · rw [Compiler.addModule, if_neg (by simp [hmoved]), Jit.addIRModule, hlength, if_pos hmoduleNew]
  · have hmodules : jit'.modules = (built ++ [b]).map (·.functions) := by
      rw [List.map_append, ← h.modules]
      rfl
    have hfunction : ∀ m i, jit'.function? m i =
        if m = built.length then b.functions[i]? else jit.function? m i := by
      intro m i
      rw [Jit.function?_eq hmodules, Jit.function?_eq h.modules]
      split
      · rename_i hm
        rw [List.getElem?_append_right (by omega), hm, Nat.sub_self]
        rfl
      · rename_i hm
        rcases Nat.lt_or_ge m built.length with hlt | hge
        · rw [List.getElem?_append_left hlt]
        · rw [List.getElem?_eq_none (by simp; omega), List.getElem?_eq_none (by omega)]
    refine ⟨hmodules, ?_, ?_, ?_⟩
    · intro m i fn hfn hdefined
      rw [hfunction] at hfn
      split at hfn
      · rename_i hm
        have hold := hnew fn (List.mem_of_getElem? hfn) hdefined
        rw [Jit.lookup_linkSymbols] at hold
        rw [hlookup, ← Option.or_assoc, hold, Option.none_or, hm]
        exact lookup_of_mem (Jit.moduleSymbols_nodup _ hnames)
          (Jit.mem_moduleSymbols.mpr ⟨i, fn, hfn, hdefined, rfl, rfl⟩)
      · rw [hlookup, h.code m i fn hfn hdefined]
        rfl
    · intro b₀ hb₀ fn hfn f hrole
      rcases List.mem_append.mp hb₀ with hb₀ | hb₀
      · obtain ⟨v, hv⟩ := h.system b₀ hb₀ fn hfn f hrole
        exact ⟨v, by rw [hlookup, hv]; rfl⟩
      · obtain rfl := List.mem_singleton.mp hb₀
        cases hd : jit.lookup fn.name with
        | some d =>
            obtain ⟨-, -, -, -, -, hnative, -⟩ := h.origin_of_name hsound hb hfn hd
            obtain ⟨v, rfl⟩ := hnative ⟨f, hrole⟩
            exact ⟨v, by rw [hlookup, hd]; rfl⟩
        | none =>
            refine ⟨f.sysFuncIntf.func, ?_⟩
            have hsystem : (Jit.systemSymbols b₀.functions).lookup fn.name =
                some (.native f.sysFuncIntf.func) :=
              lookup_of_mem (Jit.systemSymbols_nodup hnames)
                (Jit.mem_systemSymbols.mpr ⟨fn, hfn, f, hrole, rfl, rfl⟩)
            rw [hlookup, hd, Jit.wantedSymbols, List.lookup_append, hsystem]
            rfl
    · intro name d hd
      rw [hlookup] at hd
      cases hold : jit.lookup name with
      | some d₀ =>
          rw [hold] at hd
          obtain rfl : d₀ = d := Option.some.inj hd
          have horigin := h.origin name d₀ hold
          cases d₀ with
          | code m i =>
              obtain ⟨fn, hfn, hrest⟩ := horigin
              refine ⟨fn, ?_, hrest⟩
              rw [hfunction, if_neg ?_]
              · exact hfn
              · rintro rfl
                rw [Jit.function?_eq h.modules, List.getElem?_eq_none (Nat.le_refl _)] at hfn
                cases hfn
          | native v =>
              obtain ⟨b₀, hb₀, hrest⟩ := horigin
              exact ⟨b₀, List.mem_append_left _ hb₀, hrest⟩
          | runtime r => exact horigin
      | none =>
          rw [hold, Option.none_or] at hd
          rcases List.mem_append.mp (mem_of_lookup (List.lookup_append.trans hd)) with hmem | hmem
          · rcases List.mem_append.mp hmem with hmem | hmem
            · obtain ⟨fn, hfn, f, hrole, rfl, rfl⟩ := Jit.mem_systemSymbols.mp hmem
              exact ⟨b, by simp, fn, hfn, f, hrole, rfl, rfl⟩
            · obtain ⟨n, hn, heq⟩ := List.mem_map.mp hmem
              obtain ⟨rfl, rfl⟩ := Prod.mk.inj heq
              exact hn
          · obtain ⟨i, fn, hfn, hdefined, rfl, rfl⟩ := Jit.mem_moduleSymbols.mp hmem
            exact ⟨fn, by rw [hfunction, if_pos rfl, hfn], hdefined, rfl⟩

/-! ### Building the builders -/

/-- The invariants only depend on the functions and the symbols of a builder. -/
theorem ModuleBuilder.Sound.congr (h : b.Sound C known) (hfunctions : b'.functions = b.functions)
    (hsymbols : b'.jitFunctions = b.jitFunctions) (howner : b'.scriptModule = b.scriptModule) :
    b'.Sound C known := by
  obtain ⟨scriptModule, moved, functions, pending, symbols⟩ := b
  obtain ⟨scriptModule', moved', functions', pending', symbols'⟩ := b'
  dsimp only at hfunctions hsymbols howner
  subst hfunctions hsymbols howner
  exact ⟨h.named, h.attached, h.nodup, h.knows, h.thunks, h.bodies, h.calls, h.asked, h.symbols,
    h.compiledOnce⟩

theorem Jit.Holds.congr (h : jit.Holds (built ++ [b])) (hfunctions : b'.functions = b.functions) :
    jit.Holds (built ++ [b']) where
  modules := by
    rw [h.modules, List.map_append, List.map_append, List.map_singleton, List.map_singleton,
      hfunctions]
  code := h.code
  system b₀ hb₀ := by
    rcases List.mem_append.mp hb₀ with hb₀ | hb₀
    · exact h.system b₀ (List.mem_append_left _ hb₀)
    · rw [List.mem_singleton.mp hb₀, hfunctions]
      exact h.system b (by simp)
  origin name d hd := by
    have horigin := h.origin name d hd
    cases d with
    | code m i => exact horigin
    | runtime r => exact horigin
    | native v =>
        obtain ⟨b₀, hb₀, fn, hfn, hrest⟩ := horigin
        rcases List.mem_append.mp hb₀ with hb₀ | hb₀
        · exact ⟨b₀, List.mem_append_left _ hb₀, fn, hfn, hrest⟩
        · rw [List.mem_singleton.mp hb₀] at hfn
          exact ⟨b', by simp, fn, hfunctions ▸ hfn, hrest⟩

/-- A builder that has been built, of the functions that were submitted to it. -/
structure ModuleBuilder.BuiltFrom (C : Compiler) (b : ModuleBuilder) (owner : Option String)
    (ps : List PendingFunction) : Prop where
  owner : b.scriptModule = owner
  moved : b.moved = true
  nothingPending : b.pendingFunctions = []
  compiled : ∀ f, b.isCompiled f = true ↔ ∃ p ∈ ps, p.function = f
  requests : SameFirst b.roles (ps.flatMap fun p => C.requests p.function)
  symbols : ∀ s ∈ b.jitFunctions, ∃ p ∈ ps, p.function = s.scriptFunction ∧
    p.jitFunction = s.jitFunction

/-- What is submitted to the builder of an owner. -/
def ownedBy (owner : Option String) (ps : List PendingFunction) : List PendingFunction :=
  ps.filter fun p => p.function.moduleName = owner

/-- A builder with the functions that were submitted to it. -/
def submittedTo (owner : Option String) (ps : List PendingFunction) : ModuleBuilder :=
  { ModuleBuilder.new owner with pendingFunctions := ps }

/-- What a builder needs to know of the functions that are submitted to it. -/
structure Submittable (C : Compiler) (known : Reference → Prop) (owner : Option String)
    (ps : List PendingFunction) : Prop where
  owned : ∀ p ∈ ps, p.function.moduleName = owner
  known : ∀ p ∈ ps, known (.script p.function) ∧ ∀ r ∈ C.asked p.function, known r
  stops : C.stops (submittedTo owner ps) ≠ some .threw

/-- The function whose code a function with code is, or whose thunk. -/
theorem ModuleBuilder.Sound.exists_compiled (h : b.Sound C known) {fn : LlvmFunction}
    (hfn : fn ∈ b.functions) (hdefined : fn.isDefined = true) :
    ∃ f, b.isCompiled f = true ∧
      (fn.role = .reference (.script f) ∨ fn.role = .vmEntryThunk f) := by
  have hbodies := h.bodies fn hfn
  rcases hrole : fn.role with (f | f) | f
  · rw [hrole] at hbodies
    refine ⟨f, ?_, .inl rfl⟩
    by_contra hnot
    rw [LlvmFunction.isDefined, hbodies] at hdefined
    simp [hnot] at hdefined
  · exact absurd hrole (h.not_system_of_defined hfn hdefined f)
  · refine ⟨f, (h.thunks f).mp ?_, .inr rfl⟩
    rw [← hrole]
    exact List.mem_map_of_mem hfn

/-- **One build** keeps the invariant of the JIT, if it does not end in a failed assertion. -/
theorem build_holds (h : jit.Holds built) (hsound : ∀ b ∈ built, b.Sound C known)
    (hids : DistinctIds known) {owner : Option String} {ps : List PendingFunction}
    (hps : Submittable C known owner ps)
    (hbuilt : ∀ b ∈ built, ∀ f, b.isCompiled f = true →
      ∀ p ∈ ps, makeFunctionName f ≠ makeFunctionName p.function) :
    C.build jit (submittedTo owner ps) = .aborted ∨
      ∃ jit' b', C.build jit (submittedTo owner ps) = .done (jit', b') ∧
        jit'.Holds (built ++ [b']) ∧ b'.Sound C known ∧ b'.BuiltFrom C owner ps := by
  rw [Compiler.build]
  rcases C.buildFunctions_outcome (submittedTo owner ps) rfl hps.stops with
    haborted | ⟨b₁, hpending, hdone⟩
  · rw [haborted]
    exact .inl rfl
  · obtain ⟨hsound₁, howner, hmoved, hcompiled, hsymbols, hfirst⟩ := Compiler.buildPending_sound
      (ModuleBuilder.new_sound C known owner ps) hids ps hps.known hpending
    have hcompiled' : ∀ f, b₁.isCompiled f = true ↔ ∃ p ∈ ps, p.function = f := by
      intro f
      rw [hcompiled]
      exact or_iff_right Bool.false_ne_true
    have hclosed : ({ b₁ with pendingFunctions := [] } : ModuleBuilder).Sound C known :=
      hsound₁.congr rfl rfl rfl
    obtain ⟨jit', hadd, hholds⟩ := addModule_holds h hsound hclosed hmoved (by
      intro b₀ hb₀ fn₀ hfn₀ hdefined₀ fn hfn hdefined hname
      obtain ⟨f₀, hf₀, hrole₀⟩ := (hsound b₀ hb₀).exists_compiled hfn₀ hdefined₀
      obtain ⟨f, hf, hrole⟩ := hclosed.exists_compiled hfn hdefined
      obtain ⟨p, hp, rfl⟩ := (hcompiled' f).mp hf
      have halike := Role.name_eq ((hsound b₀ hb₀).name_eq hclosed hfn₀ hfn hname).1
      refine hbuilt b₀ hb₀ f₀ hf₀ p hp ?_
      rcases hrole₀ with hrole₀ | hrole₀ <;> rcases hrole with hrole | hrole <;>
        · rw [hrole₀, hrole] at halike
          first | exact halike | exact halike.elim)
    refine .inr ⟨jit', { b₁ with pendingFunctions := [], moved := true }, ?_, hholds.congr rfl,
      hclosed.congr rfl rfl rfl, ?_⟩
    · rw [hdone]
      exact hadd
    · refine ⟨howner, rfl, rfl, hcompiled', hfirst, fun s hs => ?_⟩
      exact (hsymbols s hs).resolve_left List.not_mem_nil

/-- **All builds**, one after the other, keep the invariant of the JIT. -/
theorem buildAll_holds (hids : DistinctIds known)
    (groups : List (String × List PendingFunction)) (hdistinct : (groups.map Prod.fst).Nodup)
    (hgroups : ∀ g ∈ groups, Submittable C known (some g.1) g.2)
    (hnames : ∀ g ∈ groups, ∀ g' ∈ groups, ∀ p ∈ g.2, ∀ q ∈ g'.2,
      makeFunctionName p.function = makeFunctionName q.function →
        p.function.moduleName = q.function.moduleName)
    (h : jit.Holds built) (hsound : ∀ b ∈ built, b.Sound C known)
    (hbuilt : ∀ b ∈ built, ∀ f, b.isCompiled f = true → ∀ g ∈ groups, ∀ p ∈ g.2,
      makeFunctionName f ≠ makeFunctionName p.function) :
    C.buildAll (groups.map fun g => (g.1, submittedTo (some g.1) g.2)) jit = .aborted ∨
      ∃ jit' map, C.buildAll (groups.map fun g => (g.1, submittedTo (some g.1) g.2)) jit =
          .done (jit', map) ∧ jit'.Holds (built ++ map.map Prod.snd) ∧
        (∀ nb ∈ map, nb.2.Sound C known) ∧
        List.Forall₂ (fun g nb => nb.1 = g.1 ∧ nb.2.BuiltFrom C (some g.1) g.2) groups map := by
  induction groups generalizing jit built with
  | nil => exact .inr ⟨jit, [], rfl, by simpa using h, by simp, .nil⟩
  | cons g groups ih =>
      obtain ⟨hg, hdistinct⟩ := List.nodup_cons.mp hdistinct
      have hsub := hgroups g List.mem_cons_self
      rw [List.map_cons, Compiler.buildAll]
      rcases build_holds h hsound hids hsub
        (fun b hb f hf => hbuilt b hb f hf g List.mem_cons_self) with
        haborted | ⟨jit₁, b₁, hdone, hholds₁, hsound₁, hfrom₁⟩
      · rw [haborted]
        exact .inl rfl
      · rw [hdone]
        dsimp only [BuildOutcome.andThen]
        have hsound' : ∀ b ∈ built ++ [b₁], b.Sound C known := by
          intro b hb
          rcases List.mem_append.mp hb with hb | hb
          · exact hsound b hb
          · rw [List.mem_singleton.mp hb]
            exact hsound₁
        have hbuilt' : ∀ b ∈ built ++ [b₁], ∀ f, b.isCompiled f = true → ∀ g ∈ groups, ∀ p ∈ g.2,
            makeFunctionName f ≠ makeFunctionName p.function := by
          intro b hb f hf g' hg' q hq
          rcases List.mem_append.mp hb with hb | hb
          · exact hbuilt b hb f hf g' (List.mem_cons_of_mem g hg') q hq
          · rw [List.mem_singleton.mp hb] at hf
            obtain ⟨p, hp, rfl⟩ := (hfrom₁.compiled f).mp hf
            intro hname
            have howner := hnames g List.mem_cons_self g' (List.mem_cons_of_mem g hg') p hp q hq
              hname
            rw [hsub.owned p hp, (hgroups g' (List.mem_cons_of_mem g hg')).owned q hq] at howner
            exact hg (Option.some.inj howner ▸ List.mem_map_of_mem hg')
        rcases ih hdistinct (fun g' hg' => hgroups g' (List.mem_cons_of_mem g hg'))
          (fun g' hg' g'' hg'' => hnames g' (List.mem_cons_of_mem g hg') g''
            (List.mem_cons_of_mem g hg'')) hholds₁ hsound' hbuilt' with
          haborted | ⟨jit₂, map, hdone₂, hholds₂, hsound₂, hfrom₂⟩
        · rw [haborted]
          exact .inl rfl
        · rw [hdone₂]
          refine .inr ⟨jit₂, (g.1, b₁) :: map, rfl, by simpa using hholds₂, ?_,
            .cons ⟨rfl, hfrom₁⟩ hfrom₂⟩
          intro nb hnb
          rcases List.mem_cons.mp hnb with rfl | hnb
          · exact hsound₁
          · exact hsound₂ nb hnb

end

/-! ### Telling the host -/

namespace JitCompiler

/-- What `link` does with a symbol that it can look up. -/
theorem linkSymbol_eq {s : JitCompiler} {symbol : JitSymbol} {function entry : Definition}
    (hfunction : s.jit.lookup symbol.name = some function)
    (hentry : s.jit.lookup symbol.entryName = some entry) :
    linkSymbol s symbol = some { s with
      userData := Function.update s.userData symbol.scriptFunction.id (some function)
      outputs := Function.update s.outputs symbol.jitFunction (some entry) } := by
  rw [linkSymbol, hfunction, hentry]
  rfl

/-- **What `link` leaves**: the user data of a function is what the name of its symbol is bound to,
and the output what the name of its thunk is bound to, when the symbols that are told the same
place agree on it. -/
theorem foldlM_linkSymbol (symbols : List JitSymbol) (s : JitCompiler)
    (hfound : ∀ symbol ∈ symbols, (s.jit.lookup symbol.name).isSome = true ∧
      (s.jit.lookup symbol.entryName).isSome = true) :
    ∃ s', symbols.foldlM linkSymbol s = some s' ∧ s'.jit = s.jit ∧
      s'.sharedModuleBuilder = s.sharedModuleBuilder ∧ s'.map = s.map ∧
      (∀ id d, (∀ symbol ∈ symbols, symbol.scriptFunction.id = id →
          s.jit.lookup symbol.name = d) →
        s'.userData id = if ∃ symbol ∈ symbols, symbol.scriptFunction.id = id then d
          else s.userData id) ∧
      ∀ o d, (∀ symbol ∈ symbols, symbol.jitFunction = o →
          s.jit.lookup symbol.entryName = d) →
        s'.outputs o = if ∃ symbol ∈ symbols, symbol.jitFunction = o then d
          else s.outputs o := by
  induction symbols generalizing s with
  | nil => exact ⟨s, rfl, rfl, rfl, rfl, by simp, by simp⟩
  | cons symbol symbols ih =>
      obtain ⟨hname, hentry⟩ := hfound symbol List.mem_cons_self
      obtain ⟨function, hname⟩ := Option.isSome_iff_exists.mp hname
      obtain ⟨entry, hentry⟩ := Option.isSome_iff_exists.mp hentry
      obtain ⟨s', hrun, hjit, hshared, hmap, huser, hout⟩ := ih
        { s with
          userData := Function.update s.userData symbol.scriptFunction.id (some function)
          outputs := Function.update s.outputs symbol.jitFunction (some entry) }
        fun symbol' h' => hfound symbol' (List.mem_cons_of_mem symbol h')
      refine ⟨s', ?_, hjit, hshared, hmap, fun id d hd => ?_, fun o d hd => ?_⟩
      · rw [List.foldlM_cons, linkSymbol_eq hname hentry]
        exact hrun
      · rw [huser id d fun symbol' h' => hd symbol' (List.mem_cons_of_mem symbol h')]
        simp only [List.mem_cons, exists_eq_or_imp]
        by_cases hrest : ∃ symbol' ∈ symbols, symbol'.scriptFunction.id = id
        · rw [if_pos hrest, if_pos (.inr hrest)]
        · rw [if_neg hrest]
          by_cases hid : symbol.scriptFunction.id = id
          · rw [if_pos (.inl hid), ← hid, Function.update_self, ← hname]
            exact hd symbol List.mem_cons_self hid
          · rw [if_neg (by simp [hid, hrest]), Function.update_of_ne (Ne.symm hid)]
      · rw [hout o d fun symbol' h' => hd symbol' (List.mem_cons_of_mem symbol h')]
        simp only [List.mem_cons, exists_eq_or_imp]
        by_cases hrest : ∃ symbol' ∈ symbols, symbol'.jitFunction = o
        · rw [if_pos hrest, if_pos (.inr hrest)]
        · rw [if_neg hrest]
          by_cases ho : symbol.jitFunction = o
          · rw [if_pos (.inl ho), ← ho, Function.update_self, ← hentry]
            exact hd symbol List.mem_cons_self ho
          · rw [if_neg (by simp [ho, hrest]), Function.update_of_ne (Ne.symm ho)]

/-! ### What has been submitted -/

/-- **A compiler that has not built anything yet**, with what was submitted to it. -/
structure Holding (s : JitCompiler) (ps : List PendingFunction) : Prop where
  shared : s.sharedModuleBuilder = submittedTo none (ownedBy none ps)
  jit : s.jit = ⟨[], []⟩
  outputs : s.outputs = fun _ => none
  userData : s.userData = fun _ => none
  nodup : (s.map.map Prod.fst).Nodup
  groups : ∀ nb ∈ s.map, nb.2 = submittedTo (some nb.1) (ownedBy (some nb.1) ps)
  present : ∀ p ∈ ps, ∀ name, p.function.moduleName = some name → name ∈ s.map.map Prod.fst

theorem ownedBy_append (owner : Option String) (ps : List PendingFunction)
    (p : PendingFunction) : ownedBy owner (ps ++ [p]) =
      if p.function.moduleName = owner then ownedBy owner ps ++ [p] else ownedBy owner ps := by
  rw [ownedBy, List.filter_append]
  split <;> simp [ownedBy, *]

theorem new_holding : new.Holding [] where
  shared := rfl
  jit := rfl
  outputs := rfl
  userData := rfl
  nodup := List.nodup_nil
  groups _ h := absurd h List.not_mem_nil
  present _ h := absurd h List.not_mem_nil

theorem appendTo_keys (name : String) (p : PendingFunction) (map : List (String × ModuleBuilder)) :
    (appendTo name p map).map Prod.fst =
      if name ∈ map.map Prod.fst then map.map Prod.fst else map.map Prod.fst ++ [name] := by
  induction map with
  | nil => rfl
  | cons nb map ih =>
      rw [appendTo]
      by_cases hname : nb.1 = name
      · simp [hname]
      · rw [if_neg hname, List.map_cons, ih, List.map_cons]
        by_cases hmem : name ∈ map.map Prod.fst
        · rw [if_pos hmem, if_pos (List.mem_cons_of_mem _ hmem)]
        · rw [if_neg hmem, if_neg (by simp [Ne.symm hname] at hmem ⊢; exact hmem)]
          rfl

theorem mem_appendTo {name : String} {p : PendingFunction} {map : List (String × ModuleBuilder)}
    (hnodup : (map.map Prod.fst).Nodup) {nb : String × ModuleBuilder}
    (h : nb ∈ appendTo name p map) : (nb ∈ map ∧ nb.1 ≠ name) ∨
      (∃ b, (name, b) ∈ map ∧ nb = (name, b.append p)) ∨
      (name ∉ map.map Prod.fst ∧ nb = (name, (ModuleBuilder.new (some name)).append p)) := by
  induction map with
  | nil =>
      rw [appendTo, List.mem_singleton] at h
      exact .inr (.inr ⟨List.not_mem_nil, h⟩)
  | cons nb₀ map ih =>
      obtain ⟨hnb₀, hnodup⟩ := List.nodup_cons.mp hnodup
      rw [appendTo] at h
      split at h
      · rename_i hname
        rcases List.mem_cons.mp h with rfl | h
        · exact .inr (.inl ⟨nb₀.2, by simp [← hname], by rw [hname]⟩)
        · refine .inl ⟨List.mem_cons_of_mem _ h, ?_⟩
          rintro rfl
          exact hnb₀ (hname ▸ List.mem_map_of_mem h)
      · rename_i hname
        rcases List.mem_cons.mp h with rfl | h
        · exact .inl ⟨List.mem_cons_self, hname⟩
        · rcases ih hnodup h with ⟨h, hne⟩ | ⟨b, hb, rfl⟩ | ⟨hnew, rfl⟩
          · exact .inl ⟨List.mem_cons_of_mem _ h, hne⟩
          · exact .inr (.inl ⟨b, List.mem_cons_of_mem _ hb, rfl⟩)
          · refine .inr (.inr ⟨?_, rfl⟩)
            rw [List.map_cons, List.mem_cons, not_or]
            exact ⟨Ne.symm hname, hnew⟩

/-- **`jit_compile`** adds to what has been submitted. -/
theorem Holding.jitCompile {s : JitCompiler} {ps : List PendingFunction} (h : s.Holding ps)
    (p : PendingFunction) : (s.jitCompile p).Holding (ps ++ [p]) := by
  rw [JitCompiler.jitCompile]
  cases howner : p.function.moduleName with
  | none =>
      refine ⟨?_, h.jit, h.outputs, h.userData, h.nodup, fun nb hnb => ?_, ?_⟩
      · dsimp only
        rw [h.shared, ownedBy_append, if_pos howner]
        rfl
      · rw [h.groups nb hnb, ownedBy_append, if_neg (by simp [howner])]
      · intro q hq name hname
        rcases List.mem_append.mp hq with hq | hq
        · exact h.present q hq name hname
        · rw [List.mem_singleton.mp hq, howner] at hname
          cases hname
  | some name =>
      refine ⟨?_, h.jit, h.outputs, h.userData, ?_, fun nb hnb => ?_, ?_⟩
      · dsimp only
        rw [h.shared, ownedBy_append, if_neg (by simp [howner])]
      · dsimp only
        rw [appendTo_keys]
        split
        · exact h.nodup
        · rename_i hnew
          rw [List.nodup_append]
          refine ⟨h.nodup, List.nodup_singleton _, ?_⟩
          rintro n hn m hm rfl
          exact hnew (List.mem_singleton.mp hm ▸ hn)
      · rcases mem_appendTo h.nodup hnb with ⟨hnb, hne⟩ | ⟨b, hb, rfl⟩ | ⟨hnew, rfl⟩
        · rw [h.groups nb hnb, ownedBy_append, if_neg (by simp [howner, Ne.symm hne])]
        · have hb : b = submittedTo (some name) (ownedBy (some name) ps) := h.groups _ hb
          rw [hb, ownedBy_append, if_pos howner]
          rfl
        · have hnone : ownedBy (some name) ps = [] := by
            rw [ownedBy, List.filter_eq_nil_iff]
            intro q hq hqname
            exact hnew (h.present q hq name (of_decide_eq_true hqname))
          rw [ownedBy_append, if_pos howner, hnone]
          rfl
      · intro q hq n hn
        dsimp only
        rw [appendTo_keys]
        rcases List.mem_append.mp hq with hq | hq
        · have hmem := h.present q hq n hn
          split
          · exact hmem
          · exact List.mem_append_left _ hmem
        · rw [List.mem_singleton.mp hq, howner] at hn
          obtain rfl := Option.some.inj hn
          split
          · assumption
          · exact List.mem_append_right _ (List.mem_singleton_self _)

/-- What was submitted to a compiler that has not built anything is pending. -/
theorem Holding.mem_pending {s : JitCompiler} {ps : List PendingFunction} (h : s.Holding ps)
    {p : PendingFunction} (hp : p ∈ ps) : p ∈ s.pending := by
  rw [pending, List.mem_append]
  have hown : p ∈ ownedBy p.function.moduleName ps :=
    List.mem_filter.mpr ⟨hp, decide_eq_true rfl⟩
  cases hname : p.function.moduleName with
  | none =>
      rw [hname] at hown
      left
      rw [h.shared]
      exact hown
  | some name =>
      rw [hname] at hown
      obtain ⟨nb, hnb, rfl⟩ := List.mem_map.mp (h.present p hp name hname)
      refine .inr (List.mem_flatMap.mpr ⟨nb, hnb, ?_⟩)
      rw [h.groups nb hnb]
      exact hown

/-- What is pending in it was submitted. -/
theorem Holding.pending_subset {s : JitCompiler} {ps : List PendingFunction} (h : s.Holding ps) :
    s.pending ⊆ ps := by
  intro p hp
  rw [pending, h.shared] at hp
  rcases List.mem_append.mp hp with hp | hp
  · exact (List.mem_filter.mp hp).1
  · obtain ⟨nb, hnb, hp⟩ := List.mem_flatMap.mp hp
    rw [h.groups nb hnb] at hp
    exact (List.mem_filter.mp hp).1

end JitCompiler

/-! ### One call of `build_modules` -/

/-- The functions that are submitted, and those that their translations ask for. -/
def Compiler.known (C : Compiler) (ps : List PendingFunction) (r : Reference) : Prop :=
  ∃ p ∈ ps, r = .script p.function ∨ r ∈ C.asked p.function

/-- **What is needed of the functions** for one `build_modules`: no translation throws before one
fails an assertion; functions of different owners have different names; and the first function of a
module that wants the name of one that is submitted to it is submitted, too. -/
structure Compiler.Buildable (C : Compiler) (ps : List PendingFunction) : Prop where
  stops : ∀ owner, C.stops (submittedTo owner (ownedBy owner ps)) ≠ some .threw
  owners : ∀ p ∈ ps, ∀ q ∈ ps, makeFunctionName p.function = makeFunctionName q.function →
    p.function.moduleName = q.function.moduleName
  first : ∀ p ∈ ps, ∀ g,
    ((ownedBy p.function.moduleName ps).flatMap fun q => C.requests q.function).find?
        (fun role => role.name = makeFunctionName p.function) = some (.reference (.script g)) →
      ∃ q ∈ ps, q.function = g

/-- **What one `build_modules` leaves**, in terms of the builders it has built. -/
structure Compiler.Built (C : Compiler) (ps : List PendingFunction) (s : JitCompiler)
    (built : List ModuleBuilder) : Prop where
  holds : s.jit.Holds built
  sound : ∀ b ∈ built, b.Sound C (C.known ps)
  builtFrom : ∀ b ∈ built, b.BuiltFrom C b.scriptModule (ownedBy b.scriptModule ps)
  owners : (built.map (·.scriptModule)).Nodup
  present : ∀ p ∈ ps, ∃ b ∈ built, b.scriptModule = p.function.moduleName
  userData : ∀ id d, (∀ symbol ∈ built.flatMap (·.jitFunctions), symbol.scriptFunction.id = id →
      s.jit.lookup symbol.name = d) →
    s.userData id = if ∃ symbol ∈ built.flatMap (·.jitFunctions), symbol.scriptFunction.id = id
      then d else none
  outputs : ∀ o d, (∀ symbol ∈ built.flatMap (·.jitFunctions), symbol.jitFunction = o →
      s.jit.lookup symbol.entryName = d) →
    s.outputs o = if ∃ symbol ∈ built.flatMap (·.jitFunctions), symbol.jitFunction = o
      then d else none
  nothingPending : s.pending = []

section

variable {C : Compiler} {ps : List PendingFunction} {built : List ModuleBuilder} {jit : Jit}

/-- **The thunk of a symbol**, and the code it calls, under the numbers of their modules. -/
theorem exists_places (hids : DistinctIds (C.known ps)) (hholds : jit.Holds built)
    {b : ModuleBuilder} (hb : b ∈ built) (hsound : b.Sound C (C.known ps)) {symbol : JitSymbol}
    (hsymbol : symbol ∈ b.jitFunctions) (hknown : C.known ps (.script symbol.scriptFunction)) :
    ∃ m i j fn thunk, built[m]? = some b ∧ jit.function? m i = some fn ∧
      fn.role = .reference (.script symbol.scriptFunction) ∧
      fn.bodies = [symbol.scriptFunction] ∧ jit.function? m j = some thunk ∧
      thunk = ⟨.vmEntryThunk symbol.scriptFunction, symbol.entryName, true,
        [symbol.scriptFunction], [(.script symbol.scriptFunction, i)]⟩ ∧
      jit.lookup symbol.entryName = some (.code m j) := by
  obtain ⟨m, hm⟩ := List.mem_iff_getElem?.mp hb
  obtain ⟨-, i, j, hi, hj⟩ := hsound.symbols symbol hsymbol
  have hrole := hsound.role_of_find hids hknown hi
  rw [b.roles_getElem?] at hrole
  obtain ⟨fn, hfn, hrole⟩ := Option.map_eq_some_iff.mp hrole
  have hcompiled : b.isCompiled symbol.scriptFunction = true :=
    List.any_eq_true.mpr ⟨symbol, hsymbol, by simp⟩
  have hbodies := hsound.bodies fn (List.mem_of_getElem? hfn)
  rw [hrole] at hbodies
  simp only [hcompiled, if_true] at hbodies
  have hplace : ∀ k, jit.function? m k = b.functions[k]? := by
    intro k
    rw [Jit.function?_eq hholds.modules, hm]
    rfl
  refine ⟨m, i, j, fn, _, hm, by rw [hplace, hfn], hrole, hbodies, by rw [hplace, hj], rfl, ?_⟩
  exact hholds.code m j _ ((hplace j).trans hj) rfl

/-- **The name of a symbol** is bound. -/
theorem exists_lookup_name (hids : DistinctIds (C.known ps)) (h : C.Buildable ps)
    (hholds : jit.Holds built) {b : ModuleBuilder} (hb : b ∈ built)
    (hsound : b.Sound C (C.known ps)) (hfrom : b.BuiltFrom C b.scriptModule
      (ownedBy b.scriptModule ps))
    {f : OwnedFunction} (hcompiled : b.isCompiled f = true) :
    ∃ m i fn, built[m]? = some b ∧ b.functions[i]? = some fn ∧
      jit.lookup (makeFunctionName f) = some (.code m i) ∧
      ∃ g, fn.role = .reference (.script g) ∧ fn.bodies = [g] ∧
        makeFunctionName g = makeFunctionName f ∧ b.isCompiled g = true := by
  obtain ⟨m, hm⟩ := List.mem_iff_getElem?.mp hb
  obtain ⟨p, hp, rfl⟩ := (hfrom.compiled f).mp hcompiled
  obtain ⟨hp, howner⟩ := List.mem_filter.mp hp
  have howner := of_decide_eq_true howner
  have hknown : C.known ps (.script p.function) := ⟨p, hp, .inl rfl⟩
  obtain ⟨i₀, hi₀⟩ := hsound.exists_find hcompiled
  have hrole := List.mem_of_getElem? (hsound.role_of_find hids hknown hi₀)
  obtain ⟨fn, hfn, hname, hfirst⟩ := hsound.exists_named hrole
  have hwanted : fn.role.name = (Role.reference (.script p.function)).name := by
    simpa using List.find?_some hfirst
  have halike := Role.name_eq hwanted
  rw [hfrom.requests, ← howner] at hfirst
  rcases hr : fn.role with (g | g) | g <;> rw [hr] at halike
  · rw [hr] at hfirst
    obtain ⟨q, hq, rfl⟩ := h.first p hp g hfirst
    have hqcompiled : b.isCompiled q.function = true := by
      refine (hfrom.compiled q.function).mpr ⟨q, List.mem_filter.mpr ⟨hq, ?_⟩, rfl⟩
      rw [decide_eq_true_eq, ← howner]
      exact h.owners q hq p hp halike
    have hbodies := hsound.bodies fn hfn
    rw [hr] at hbodies
    simp only [hqcompiled, if_true] at hbodies
    obtain ⟨i, hi⟩ := List.mem_iff_getElem?.mp hfn
    have hplace : jit.function? m i = some fn := by
      rw [Jit.function?_eq hholds.modules, hm]
      exact hi
    have hdefined : fn.isDefined = true := by
      rw [LlvmFunction.isDefined, hsound.attached fn hfn, hbodies]
      rfl
    refine ⟨m, i, fn, hm, hi, ?_, q.function, hr, hbodies, halike, hqcompiled⟩
    have hcode := hholds.code m i fn hplace hdefined
    rwa [hname] at hcode
  · exact halike.elim
  · exact halike.elim

theorem exists_of_forall₂_right {α β : Type} {R : α → β → Prop} {l : List α} {l' : List β}
    (h : List.Forall₂ R l l') {b : β} (hb : b ∈ l') : ∃ a ∈ l, R a b := by
  induction h with
  | nil => cases hb
  | cons hR _ ih =>
      rcases List.mem_cons.mp hb with rfl | hb
      · exact ⟨_, List.mem_cons_self, hR⟩
      · obtain ⟨a, ha, hab⟩ := ih hb
        exact ⟨a, List.mem_cons_of_mem _ ha, hab⟩

theorem foldlM_link (builders : List ModuleBuilder) (s : JitCompiler) :
    builders.foldlM JitCompiler.link s =
      (builders.flatMap (·.jitFunctions)).foldlM JitCompiler.linkSymbol s := by
  induction builders generalizing s with
  | nil => rfl
  | cons b builders ih =>
      rw [List.foldlM_cons, List.flatMap_cons, List.foldlM_append]
      exact bind_congr fun s' => ih s'

/-- What was submitted to a builder is what it needs to know. -/
theorem Compiler.Buildable.submittable (h : C.Buildable ps) (owner : Option String) :
    Submittable C (C.known ps) owner (ownedBy owner ps) where
  owned _ hp := of_decide_eq_true (List.mem_filter.mp hp).2
  known p hp := ⟨⟨p, (List.mem_filter.mp hp).1, .inl rfl⟩,
    fun _ hr => ⟨p, (List.mem_filter.mp hp).1, .inr hr⟩⟩
  stops := h.stops owner

/-- **One call of `build_modules`**, the first one, builds all that was submitted, if no assertion
fails. -/
theorem buildModules_built (hids : DistinctIds (C.known ps)) (h : C.Buildable ps)
    {s : JitCompiler} (hs : s.Holding ps) {order : List (String × ModuleBuilder)}
    (horder : order.Perm s.map) :
    C.buildModules order s = .aborted ∨
      ∃ s' built, C.buildModules order s = .done s' ∧ C.Built ps s' built ∧ s'.map = [] := by
  have hkeys : (order.map Prod.fst).Nodup := (horder.map Prod.fst).nodup_iff.mpr hs.nodup
  -- the builders of the modules, by what was submitted to them
  set groups := order.map fun nb => (nb.1, ownedBy (some nb.1) ps) with hgroups
  have horder' : order = groups.map fun g => (g.1, submittedTo (some g.1) g.2) := by
    rw [hgroups, List.map_map]
    conv_lhs => rw [← List.map_id order]
    refine List.map_congr_left fun nb hnb => ?_
    have := hs.groups nb (horder.subset hnb)
    exact Prod.ext rfl this
  have hgroupKeys : groups.map Prod.fst = order.map Prod.fst := by
    rw [hgroups, List.map_map]
    rfl
  have hgroup : ∀ g ∈ groups, g.2 = ownedBy (some g.1) ps := by
    intro g hg
    obtain ⟨nb, -, rfl⟩ := List.mem_map.mp hg
    rfl
  have hsubmitted : ∀ g ∈ groups, ∀ p ∈ g.2, p ∈ ps ∧ p.function.moduleName = some g.1 := by
    intro g hg p hp
    rw [hgroup g hg] at hp
    obtain ⟨hp, howner⟩ := List.mem_filter.mp hp
    exact ⟨hp, of_decide_eq_true howner⟩
  rw [Compiler.buildModules, hs.shared, hs.jit]
  rcases build_holds Jit.new_holds (fun _ hb => absurd hb List.not_mem_nil) hids
    (h.submittable none) (fun _ hb => absurd hb List.not_mem_nil) with
    haborted | ⟨jit₁, shared, hdone₁, hholds₁, hsound₁, hfrom₁⟩
  · rw [haborted]
    exact .inl rfl
  rw [hdone₁]
  dsimp only [BuildOutcome.andThen]
  have hrest := buildAll_holds hids groups (hgroupKeys ▸ hkeys)
    (fun g hg => hgroup g hg ▸ h.submittable (some g.1))
    (fun g hg g' hg' p hp q hq => h.owners p (hsubmitted g hg p hp).1 q (hsubmitted g' hg' q hq).1)
    hholds₁ (fun b hb => List.mem_singleton.mp hb ▸ hsound₁) (by
      intro b hb f hf g hg q hq hname
      rw [List.mem_singleton.mp hb] at hf
      obtain ⟨p, hp, rfl⟩ := (hfrom₁.compiled f).mp hf
      obtain ⟨hp, howner⟩ := List.mem_filter.mp hp
      have hsame := h.owners p hp q (hsubmitted g hg q hq).1 hname
      rw [of_decide_eq_true howner, (hsubmitted g hg q hq).2] at hsame
      cases hsame)
  rw [← horder'] at hrest
  rcases hrest with haborted | ⟨jit₂, map, hdone₂, hholds₂, hsound₂, hfrom₂⟩
  · rw [haborted]
    exact .inl rfl
  rw [hdone₂]
  dsimp only [BuildOutcome.andThen]
  right
  set built := shared :: map.map Prod.snd with hbuilt
  have howners : built.map (·.scriptModule) = none :: order.map fun nb => some nb.1 := by
    have hmodules : map.map (fun nb => nb.2.scriptModule) = groups.map fun g => some g.1 := by
      clear_value groups
      clear hgroups horder' hgroupKeys hgroup hholds₂ hsound₂ hbuilt hdone₂ hsubmitted
      induction hfrom₂ with
      | nil => rfl
      | cons hg hrest ih => rw [List.map_cons, List.map_cons, hg.2.owner, ih]
    rw [hbuilt, List.map_cons, hfrom₁.owner, List.map_map]
    refine congrArg (none :: ·) (hmodules.trans ?_)
    rw [hgroups, List.map_map]
    rfl
  have hsound : ∀ b ∈ built, b.Sound C (C.known ps) := by
    intro b hb
    rcases List.mem_cons.mp hb with rfl | hb
    · exact hsound₁
    · obtain ⟨nb, hnb, rfl⟩ := List.mem_map.mp hb
      exact hsound₂ nb hnb
  have hfrom : ∀ b ∈ built, b.BuiltFrom C b.scriptModule (ownedBy b.scriptModule ps) := by
    intro b hb
    rcases List.mem_cons.mp hb with rfl | hb
    · rw [hfrom₁.owner]
      exact hfrom₁
    · obtain ⟨nb, hnb, rfl⟩ := List.mem_map.mp hb
      obtain ⟨g, hg, -, hnbg⟩ := exists_of_forall₂_right hfrom₂ hnb
      rw [hnbg.owner, ← hgroup g hg]
      exact hnbg
  have hpresent : ∀ p ∈ ps, ∃ b ∈ built, b.scriptModule = p.function.moduleName := by
    intro p hp
    rw [← List.mem_map, howners]
    cases hname : p.function.moduleName with
    | none => exact List.mem_cons_self
    | some name =>
        have hkey := hs.present p hp name hname
        obtain ⟨nb, hnb, rfl⟩ := List.mem_map.mp hkey
        exact List.mem_cons_of_mem _ (List.mem_map_of_mem (f := fun nb => some nb.1)
          (horder.symm.subset hnb))
  have hholds : jit₂.Holds built := hholds₂
  have hfound : ∀ symbol ∈ built.flatMap (·.jitFunctions),
      (jit₂.lookup symbol.name).isSome = true ∧ (jit₂.lookup symbol.entryName).isSome = true := by
    intro symbol hsymbol
    obtain ⟨b, hb, hsymbol⟩ := List.mem_flatMap.mp hsymbol
    have hcompiled : b.isCompiled symbol.scriptFunction = true :=
      List.any_eq_true.mpr ⟨symbol, hsymbol, by simp⟩
    obtain ⟨p, hp, hpf⟩ := ((hfrom b hb).compiled _).mp hcompiled
    have hknown : C.known ps (.script symbol.scriptFunction) :=
      ⟨p, (List.mem_filter.mp hp).1, .inl (by rw [hpf])⟩
    obtain ⟨m, i, fn, -, -, hlookup, -⟩ :=
      exists_lookup_name hids h hholds hb (hsound b hb) (hfrom b hb) hcompiled
    obtain ⟨m', i', j, fn', thunk, -, -, -, -, -, -, hentry⟩ :=
      exists_places hids hholds hb (hsound b hb) hsymbol hknown
    rw [((hsound b hb).symbols symbol hsymbol).1, hlookup, hentry]
    exact ⟨rfl, rfl⟩
  obtain ⟨s', hrun, hjit, hshared, hmap, huser, hout⟩ := JitCompiler.foldlM_linkSymbol
    (built.flatMap (·.jitFunctions))
    { s with sharedModuleBuilder := shared, map := map, jit := jit₂ } hfound
  refine ⟨{ s' with map := [] }, built, ?_, ?_, rfl⟩
  · rw [Compiler.linkAll, foldlM_link]
    rw [← hbuilt, hrun]
  · refine ⟨hjit ▸ hholds, hsound, hfrom, ?_, hpresent, ?_, ?_, ?_⟩
    · rw [howners, List.nodup_cons]
      refine ⟨by simp, ?_⟩
      have hinj : order.map (fun nb => some nb.1) = (order.map Prod.fst).map some := by
        rw [List.map_map]
        rfl
      rw [hinj]
      exact hkeys.map fun _ _ => Option.some.inj
    · intro id d hd
      dsimp only at hd
      rw [hjit] at hd
      have := huser id d hd
      rwa [hs.userData] at this
    · intro o d hd
      dsimp only at hd
      rw [hjit] at hd
      have := hout o d hd
      rwa [hs.outputs] at this
    · rw [JitCompiler.pending]
      dsimp only
      rw [hshared, hfrom₁.nothingPending]
      rfl

variable {s : JitCompiler}

/-! ### No assertion fails -/

theorem BuildOutcome.andThen_ne_aborted {σ τ : Type} {o : BuildOutcome σ}
    {next : σ → BuildOutcome τ} {left : σ → τ} (h : o ≠ .aborted)
    (hnext : ∀ a, o = .done a → next a ≠ .aborted) : o.andThen next left ≠ .aborted := by
  cases o with
  | done a => exact hnext a rfl
  | threw f a => simp [BuildOutcome.andThen]
  | aborted => exact absurd rfl h
  | exited => simp [BuildOutcome.andThen]
  | undefined => simp [BuildOutcome.andThen]

/-- A build ends in a failed assertion only if a translation does. -/
theorem buildPending_ne_aborted (qs : List PendingFunction) (b : ModuleBuilder)
    (h : ∀ q ∈ qs, C.completion q.function ≠ .aborted) : C.buildPending qs b ≠ .aborted := by
  induction qs generalizing b with
  | nil => simp [Compiler.buildPending]
  | cons q qs ih =>
      have hrest := fun b => ih b fun q' hq' => h q' (List.mem_cons_of_mem q hq')
      rw [Compiler.buildPending]
      split
      · exact hrest b
      · rw [Compiler.buildFunction]
        by_cases hmoved : b.moved = true
        · rw [if_pos hmoved]
          simp
        · rw [if_neg hmoved]
          cases hend : C.completion q.function with
          | returned =>
              dsimp only
              exact hrest _
          | threw =>
              dsimp only
              by_cases hattached : (C.translate b q.function).2.isAttached
                  (C.translate b q.function).1 = true
              · simp [hattached]
              · simp [hattached]
          | aborted => exact absurd hend (h q List.mem_cons_self)

theorem build_ne_aborted (jit : Jit) (b : ModuleBuilder)
    (h : ∀ p ∈ b.pendingFunctions, C.completion p.function ≠ .aborted) :
    C.build jit b ≠ .aborted := by
  rw [Compiler.build]
  refine BuildOutcome.andThen_ne_aborted ?_ fun b' _ => ?_
  · have hpending := buildPending_ne_aborted b.pendingFunctions b h
    rw [Compiler.buildFunctions]
    split
    · simp
    · exact hpending
  · rw [Compiler.addModule]
    split
    · simp
    · split <;> simp

theorem buildAll_ne_aborted (map : List (String × ModuleBuilder)) (jit : Jit)
    (h : ∀ nb ∈ map, ∀ p ∈ nb.2.pendingFunctions, C.completion p.function ≠ .aborted) :
    C.buildAll map jit ≠ .aborted := by
  induction map generalizing jit with
  | nil => simp [Compiler.buildAll]
  | cons nb map ih =>
      rw [Compiler.buildAll]
      refine BuildOutcome.andThen_ne_aborted (build_ne_aborted jit nb.2 (h nb List.mem_cons_self))
        fun built _ => ?_
      exact BuildOutcome.andThen_ne_aborted
        (ih built.1 fun nb' hnb' => h nb' (List.mem_cons_of_mem nb hnb'))
        fun _ _ => by simp

/-- **`build_modules` ends in a failed assertion** only if the translation of a function that was
submitted does. -/
theorem buildModules_ne_aborted (hs : s.Holding ps)
    (h : ∀ p ∈ ps, C.completion p.function ≠ .aborted) {order : List (String × ModuleBuilder)}
    (horder : order.Perm s.map) : C.buildModules order s ≠ .aborted := by
  have howned : ∀ owner, ∀ p ∈ (submittedTo owner (ownedBy owner ps)).pendingFunctions,
      C.completion p.function ≠ .aborted := fun owner p hp => h p (List.mem_filter.mp hp).1
  rw [Compiler.buildModules]
  refine BuildOutcome.andThen_ne_aborted (build_ne_aborted _ _ ?_) fun built _ => ?_
  · rw [hs.shared]
    exact howned none
  · refine BuildOutcome.andThen_ne_aborted (buildAll_ne_aborted _ _ fun nb hnb => ?_)
      fun built' _ => ?_
    · rw [hs.groups nb (horder.subset hnb)]
      exact howned _
    · dsimp only
      rw [Compiler.linkAll]
      split <;> simp

/-! ### After a build -/

/-- The builder of the module of a function has compiled it. -/
theorem Compiler.Built.compiled (h : C.Built ps s built) {p : PendingFunction} (hp : p ∈ ps) :
    ∃ b ∈ built, b.scriptModule = p.function.moduleName ∧ b.isCompiled p.function = true := by
  obtain ⟨b, hb, howner⟩ := h.present p hp
  refine ⟨b, hb, howner, ((h.builtFrom b hb).compiled _).mpr ⟨p, List.mem_filter.mpr ⟨hp, ?_⟩, rfl⟩⟩
  rw [howner]
  exact decide_eq_true rfl

/-- What a builder has compiled was submitted to it. -/
theorem Compiler.Built.submitted (h : C.Built ps s built) {b : ModuleBuilder} (hb : b ∈ built)
    {f : OwnedFunction} (hf : b.isCompiled f = true) :
    ∃ p ∈ ps, p.function = f ∧ f.moduleName = b.scriptModule := by
  obtain ⟨p, hp, rfl⟩ := ((h.builtFrom b hb).compiled f).mp hf
  obtain ⟨hp, howner⟩ := List.mem_filter.mp hp
  exact ⟨p, hp, rfl, of_decide_eq_true howner⟩

/-- Builders of the same owner are the same. -/
theorem Compiler.Built.unique (h : C.Built ps s built) {m m' : ℕ} {b b' : ModuleBuilder}
    (hb : built[m]? = some b) (hb' : built[m']? = some b') (howner : b.scriptModule = b'.scriptModule) :
    m = m' := by
  have hm : (built.map (·.scriptModule))[m]? = some b.scriptModule := by
    rw [List.getElem?_map, hb]
    rfl
  have hm' : (built.map (·.scriptModule))[m']? = some b.scriptModule := by
    rw [List.getElem?_map, hb', howner]
    rfl
  obtain ⟨hlt, -⟩ := List.getElem?_eq_some_iff.mp hm
  exact (List.getElem?_inj hlt h.owners).mp (hm.trans hm'.symm)

/-- **The symbol of a function that was submitted**, with the thunk and the code it leads to. -/
theorem Compiler.Built.exists_symbol (h : C.Built ps s built) (hids : DistinctIds (C.known ps))
    {p : PendingFunction} (hp : p ∈ ps) :
    ∃ b ∈ built, ∃ symbol ∈ b.jitFunctions, b.scriptModule = p.function.moduleName ∧
      symbol.scriptFunction = p.function ∧ ∃ m i j fn thunk, built[m]? = some b ∧
      s.jit.function? m i = some fn ∧ fn.role = .reference (.script p.function) ∧
      fn.bodies = [p.function] ∧ s.jit.function? m j = some thunk ∧
      thunk = ⟨.vmEntryThunk p.function, symbol.entryName, true, [p.function],
        [(.script p.function, i)]⟩ ∧ s.jit.lookup symbol.entryName = some (.code m j) := by
  obtain ⟨b, hb, howner, hcompiled⟩ := h.compiled hp
  obtain ⟨symbol, hsymbol, hsf⟩ := List.any_eq_true.mp hcompiled
  have hsf : symbol.scriptFunction = p.function := of_decide_eq_true hsf
  have hplaces := exists_places hids h.holds hb (h.sound b hb) hsymbol
    (hsf ▸ ⟨p, hp, .inl rfl⟩)
  rw [hsf] at hplaces
  exact ⟨b, hb, symbol, hsymbol, howner, hsf, hplaces⟩

/-- A symbol of a builder is one of a function that was submitted. -/
theorem Compiler.Built.submitted_symbol (h : C.Built ps s built) {symbol : JitSymbol}
    (hsymbol : symbol ∈ built.flatMap (·.jitFunctions)) :
    ∃ b ∈ built, symbol ∈ b.jitFunctions ∧ b.isCompiled symbol.scriptFunction = true ∧
      b.scriptModule = symbol.scriptFunction.moduleName ∧
      ∃ p ∈ ps, p.function = symbol.scriptFunction ∧ p.jitFunction = symbol.jitFunction := by
  obtain ⟨b, hb, hsymbol⟩ := List.mem_flatMap.mp hsymbol
  have hcompiled : b.isCompiled symbol.scriptFunction = true :=
    List.any_eq_true.mpr ⟨symbol, hsymbol, decide_eq_true rfl⟩
  obtain ⟨-, -, -, howner⟩ := h.submitted hb hcompiled
  obtain ⟨p, hp, hpf⟩ := (h.builtFrom b hb).symbols symbol hsymbol
  exact ⟨b, hb, hsymbol, hcompiled, howner.symm, p, (List.mem_filter.mp hp).1, hpf⟩

/-- **The user data of a function** is what its name is bound to. -/
theorem Compiler.Built.userData_eq (h : C.Built ps s built) (hids : DistinctIds (C.known ps))
    {p : PendingFunction} (hp : p ∈ ps) :
    s.userData p.function.id = s.jit.lookup (makeFunctionName p.function) := by
  obtain ⟨b, hb, symbol, hsymbol, -, hsf, -⟩ := h.exists_symbol hids hp
  have hvalue := h.userData p.function.id (s.jit.lookup (makeFunctionName p.function)) (by
    intro symbol' hmem' hid
    obtain ⟨b', hb', hsymbol', -, -, q, hq, hqf, -⟩ := h.submitted_symbol hmem'
    have hsame : Reference.script symbol'.scriptFunction = .script p.function :=
      hids _ _ ⟨q, hq, .inl (by rw [hqf])⟩ ⟨p, hp, .inl rfl⟩ (by simpa [Role.isFor] using hid)
    injection hsame with hsame
    rw [((h.sound b' hb').symbols symbol' hsymbol').1, hsame])
  rw [if_pos ⟨symbol, List.mem_flatMap.mpr ⟨b, hb, hsymbol⟩, by rw [hsf]⟩] at hvalue
  exact hvalue

end

/-! ### Functions that return at once -/

/-- A compiler whose functions return at once. -/
def returningCompiler : Compiler := .ofBytecode (fun _ => retBytecode) fun _ => []

end Asllvm
