import Asllvm.JitCompiler
import Asllvm.Lib.Splits
import Asllvm.Lib.UniqueNames

/-!
# Built Modules

What a module looks like that a builder has built: which functions it has, under which names, which
of them have code, and where their calls go.

* `ModuleBuilder.Sound` — the invariant of a builder none of whose translations has thrown.
* `ModuleBuilder.WellFormed` — what a module is that has been built.

## Main results

* `Role.name_eq` — functions of different kinds never want the same name.
* `buildFunction_sound`, `buildPending_sound` — building keeps a builder sound.
* `buildFunctions_wellFormed` — what a builder builds is well formed.
-/

namespace Asllvm

/-! ### How names end -/

/-- Digits behind a dot can be told from what is before them. -/
theorem eq_of_append_digits {a b s t : List Char} (hs : ∀ c ∈ s, c.isDigit = true)
    (ht : ∀ c ∈ t, c.isDigit = true) (h : a ++ '.' :: s = b ++ '.' :: t) : a = b ∧ s = t := by
  have hdot : ∀ l : List Char, (∀ c ∈ l, c.isDigit = true) → '.' ∉ l := by
    intro l hl hmem
    exact absurd (hl '.' hmem) (by decide)
  exact Splits.append_cons_inj_last (hdot s hs) (hdot t ht) h

/-- A declaration ends neither as the name of a thunk does nor with a digit. -/
theorem OwnedFunction.declaration_last (f : OwnedFunction) (head : String) :
    ∃ c, (head ++ f.declaration).toList.getLast? = some c ∧ c ≠ 'k' ∧ c.isDigit = false := by
  obtain ⟨s, hs | hs | hs⟩ := f.declaration_ends
  · exact ⟨')', by rw [hs]; simp, by decide, by decide⟩
  · exact ⟨'t', by rw [hs]; simp, by decide, by decide⟩
  · exact ⟨'\x7d', by rw [hs]; simp, by decide, by decide⟩

theorem makeVmEntryThunkName_last (f : OwnedFunction) :
    (makeVmEntryThunkName f).toList.getLast? = some 'k' := by
  simp [makeVmEntryThunkName]

/-- The names of script functions and thunks start differently from those of system functions and of
the functions of the runtime. -/
theorem makeFunctionName_char (f : OwnedFunction) :
    (makeFunctionName f).toList[7]? = some 's' ∨ (makeFunctionName f).toList[7]? = some 'm' := by
  rw [makeFunctionName]
  cases f.moduleName with
  | none =>
      left
      simp [makeModuleName, String.toList_append]
  | some name =>
      right
      simp [makeModuleName, String.toList_append]

theorem makeVmEntryThunkName_char (f : OwnedFunction) :
    (makeVmEntryThunkName f).toList[7]? = some 's' ∨
      (makeVmEntryThunkName f).toList[7]? = some 'm' := by
  have hchar := makeFunctionName_char f
  have hlong : 7 < (makeFunctionName f).toList.length := by
    by_contra hshort
    rw [List.getElem?_eq_none (by omega)] at hchar
    simp at hchar
  rwa [makeVmEntryThunkName, String.toList_append, List.getElem?_append_left hlong]

theorem makeSystemFunctionName_char (f : OwnedFunction) :
    (makeSystemFunctionName f).toList[7]? = some 'e' := by
  simp [makeSystemFunctionName, String.toList_append]

/-- Functions of the same kind, whose declarations, and owners where they count, are the same. -/
def Role.Alike : Role → Role → Prop
  | .reference (.script f), .reference (.script g) => makeFunctionName f = makeFunctionName g
  | .reference (.system f), .reference (.system g) => f.declaration = g.declaration
  | .vmEntryThunk f, .vmEntryThunk g => makeFunctionName f = makeFunctionName g
  | _, _ => False

/-- **Functions of different kinds never want the same name.** -/
theorem Role.name_eq {role role' : Role} (h : role.name = role'.name) : role.Alike role' := by
  have hlast := congrArg (·.toList.getLast?) h
  have hchar := congrArg (·.toList[7]?) h
  rcases role with (f | f) | f <;> rcases role' with (g | g) | g <;>
    simp only [Role.name, Role.Alike] at h hlast hchar ⊢
  · exact h
  · have := makeFunctionName_char f
    rw [hchar, makeSystemFunctionName_char] at this
    simp at this
  · obtain ⟨c, hc, hne, -⟩ := f.declaration_last (makeModuleName f.moduleName ++ ".")
    rw [← makeFunctionName, hlast, makeVmEntryThunkName_last] at hc
    exact absurd (Option.some.inj hc).symm hne
  · have := makeFunctionName_char g
    rw [← hchar, makeSystemFunctionName_char] at this
    simp at this
  · simpa [makeSystemFunctionName] using h
  · have := makeVmEntryThunkName_char g
    rw [← hchar, makeSystemFunctionName_char] at this
    simp at this
  · obtain ⟨c, hc, hne, -⟩ := g.declaration_last (makeModuleName g.moduleName ++ ".")
    rw [← makeFunctionName, ← hlast, makeVmEntryThunkName_last] at hc
    exact absurd (Option.some.inj hc).symm hne
  · have := makeVmEntryThunkName_char f
    rw [hchar, makeSystemFunctionName_char] at this
    simp at this
  · simpa [makeVmEntryThunkName] using h

/-- The last character of a name that is wanted is no digit. -/
theorem Role.name_last (role : Role) :
    ∀ c, role.name.toList.getLast? = some c → c.isDigit = false := by
  intro c hc
  rcases role with (f | f) | f
  · obtain ⟨d, hd, -, hdigit⟩ := f.declaration_last (makeModuleName f.moduleName ++ ".")
    rw [Role.name, makeFunctionName, hd] at hc
    exact Option.some.inj hc ▸ hdigit
  · obtain ⟨d, hd, -, hdigit⟩ := f.declaration_last "asllvm.external."
    rw [Role.name, makeSystemFunctionName, hd] at hc
    exact Option.some.inj hc ▸ hdigit
  · rw [Role.name, makeVmEntryThunkName_last] at hc
    cases hc
    decide

/-- Names that are wanted are none of the runtime, and start with `asllvm`. -/
theorem Role.name_not_runtime (role : Role) : role.name ∉ runtimeNames := by
  intro hmem
  have hchar : ∀ n ∈ runtimeNames, n.toList[7]? = some 'p' ∨ n.toList[7]? = none := by decide
  have hrole : role.name.toList[7]? = some 's' ∨ role.name.toList[7]? = some 'm' ∨
      role.name.toList[7]? = some 'e' := by
    rcases role with (f | f) | f
    · exact (makeFunctionName_char f).imp id .inl
    · exact .inr (.inr (makeSystemFunctionName_char f))
    · exact (makeVmEntryThunkName_char f).imp id .inl
  rcases hchar _ hmem with h | h <;> rw [h] at hrole <;> simp at hrole

/-- No function of the runtime has a name that ends with a digit. -/
theorem runtimeNames_last {name : String} (hname : name ∈ runtimeNames) {c : Char}
    (hc : name.toList.getLast? = some c) : c.isDigit = false := by
  have hall : (runtimeNames.all fun n => n.toList.getLast?.all fun c => !c.isDigit) = true := by
    decide
  have h := List.all_eq_true.mp hall name hname
  rw [hc] at h
  simpa using h

namespace Compiler

variable (C : Compiler)

/-- The name LLVM makes for a function, in the module of the given owner. -/
def renamed (owner : Option String) (taken : List String) (role : Role) : String :=
  role.name ++ "." ++ C.naming.suffix owner taken role

theorem renamed_toList (owner : Option String) (taken : List String) (role : Role) :
    (C.renamed owner taken role).toList =
      role.name.toList ++ '.' :: (C.naming.suffix owner taken role).toList := by
  simp [renamed, String.toList_append]

/-- A name that LLVM makes ends with a digit. -/
theorem renamed_last (owner : Option String) (taken : List String) (role : Role) :
    ∃ c, (C.renamed owner taken role).toList.getLast? = some c ∧ c.isDigit = true := by
  obtain ⟨hne, hdigits⟩ := C.naming.digits owner taken role
  have hlist : (C.naming.suffix owner taken role).toList ≠ [] := by simpa using hne
  refine ⟨(C.naming.suffix owner taken role).toList.getLast hlist, ?_,
    hdigits _ (List.getLast_mem hlist)⟩
  rw [renamed_toList, List.getLast?_append_of_ne_nil _ (List.cons_ne_nil _ _),
    List.getLast?_cons, List.getLast?_eq_some_getLast hlist]
  rfl

/-- **No name that LLVM makes is wanted by any function.** -/
theorem renamed_ne_name (owner : Option String) (taken : List String) (role role' : Role) :
    C.renamed owner taken role ≠ role'.name := by
  intro h
  obtain ⟨c, hc, hdigit⟩ := C.renamed_last owner taken role
  rw [h] at hc
  rw [role'.name_last c hc] at hdigit
  cases hdigit

/-- Names that LLVM makes are equal only if the names they were made from are. -/
theorem renamed_eq {C C' : Compiler} {owner owner' : Option String} {taken taken' : List String}
    {role role' : Role} (h : C.renamed owner taken role = C'.renamed owner' taken' role') :
    role.name = role'.name ∧
      C.naming.suffix owner taken role = C'.naming.suffix owner' taken' role' := by
  have hlist := congrArg String.toList h
  rw [renamed_toList, renamed_toList] at hlist
  obtain ⟨hname, hsuffix⟩ := eq_of_append_digits (C.naming.digits owner taken role).2
    (C'.naming.digits owner' taken' role').2 hlist
  exact ⟨String.toList_inj.mp hname, String.toList_inj.mp hsuffix⟩

/-- The names of a module are made unique. -/
theorem naming_lawful (owner : Option String) :
    UniqueNames.Lawful Role.name (C.renamed owner) standardFunctionNames where
  fresh taken role htaken := C.naming.fresh owner taken role htaken
  apart := C.renamed_ne_name owner
  unwanted role hmem := role.name_not_runtime (List.mem_append_left _ hmem)

end Compiler

/-! ### First of all -/

/-- Two lists in which whatever is looked for is found first at the same element. -/
def SameFirst {α : Type} (l l' : List α) : Prop := ∀ P : α → Bool, l.find? P = l'.find? P

theorem SameFirst.append {α : Type} {l l' : List α} (h : SameFirst l l') (m : List α) :
    SameFirst (l ++ m) (l' ++ m) := by
  intro P
  rw [List.find?_append, List.find?_append, h P]

theorem SameFirst.trans {α : Type} {l l' l'' : List α} (h : SameFirst l l')
    (h' : SameFirst l' l'') : SameFirst l l'' := fun P => (h P).trans (h' P)

theorem SameFirst.mem_iff {α : Type} [DecidableEq α] {l l' : List α} (h : SameFirst l l')
    (a : α) : a ∈ l ↔ a ∈ l' := by
  have hmem : ∀ m : List α, a ∈ m ↔ m.find? (· = a) = some a := by
    intro m
    constructor
    · intro ha
      have hsome : (m.find? fun c => decide (c = a)).isSome = true :=
        List.find?_isSome.mpr ⟨a, ha, decide_eq_true rfl⟩
      obtain ⟨c, hc⟩ := Option.isSome_iff_exists.mp hsome
      obtain rfl : c = a := by simpa using List.find?_some hc
      exact hc
    · exact List.mem_of_find?_eq_some
  rw [hmem l, hmem l', h]

/-- What is in the list already can be added without a difference. -/
theorem SameFirst.of_subset {α : Type} {l m : List α} (hm : m ⊆ l) : SameFirst l (l ++ m) := by
  intro P
  rw [List.find?_append]
  cases hl : l.find? P with
  | some c => rfl
  | none =>
      rw [List.find?_eq_none] at hl
      rw [Option.none_or, eq_comm, List.find?_eq_none]
      exact fun a ha => hl a (hm ha)

/-- What the translation of a function wants of its module, in order: the function itself, what it
asks for, and the thunk. -/
def Compiler.requests (C : Compiler) (f : OwnedFunction) : List Role :=
  .reference (.script f) :: (C.asked f).map .reference ++ [.vmEntryThunk f]

/-! ### The invariant -/

/-- The functions of a module with their names, in the order of creation. -/
def ModuleBuilder.signatures (b : ModuleBuilder) : List (Role × String) :=
  b.functions.map fun fn => (fn.role, fn.name)

/-- **The invariant of a builder** whose translations have all returned, when the functions that it
knows have ids of their own. -/
structure ModuleBuilder.Sound (C : Compiler) (known : Reference → Prop) (b : ModuleBuilder) :
    Prop where
  named : UniqueNames.Named Role.name (C.renamed b.scriptModule) standardFunctionNames b.signatures
  attached : ∀ fn ∈ b.functions, fn.attached = true
  nodup : b.roles.Nodup
  knows : ∀ r, .reference r ∈ b.roles → known r
  thunks : ∀ f, .vmEntryThunk f ∈ b.roles ↔ b.isCompiled f = true
  bodies : ∀ fn ∈ b.functions, fn.bodies =
    match fn.role with
    | .reference (.script f) => if b.isCompiled f then [f] else []
    | .reference (.system _) => []
    | .vmEntryThunk f => [f]
  calls : ∀ fn ∈ b.functions, ∀ call ∈ fn.calls, known call.1 ∧ b.find call.1 = some call.2
  asked : ∀ fn ∈ b.functions, ∀ f, fn.role = .reference (.script f) →
    fn.calls.map Prod.fst = if b.isCompiled f then C.asked f else []
  symbols : ∀ s ∈ b.jitFunctions, s.name = makeFunctionName s.scriptFunction ∧
    ∃ i j : ℕ, b.find (.script s.scriptFunction) = some i ∧ b.functions[j]? =
      some (LlvmFunction.mk (.vmEntryThunk s.scriptFunction) s.entryName true [s.scriptFunction]
        [(.script s.scriptFunction, i)])
  compiledOnce : (b.jitFunctions.map (·.scriptFunction)).Nodup

/-- Functions that have the same id, and are of the same kind, are the same. -/
def DistinctIds (known : Reference → Prop) : Prop :=
  ∀ r r', known r → known r' → (Role.reference r).isFor r' = true → r = r'

namespace ModuleBuilder

variable {C : Compiler} {known : Reference → Prop} {b : ModuleBuilder}

theorem isFor_self (r : Reference) : (Role.reference r).isFor r = true := by
  cases r <;> simp [Role.isFor]

theorem roles_getElem? (b : ModuleBuilder) (i : ℕ) :
    b.roles[i]? = (b.functions[i]?).map (·.role) := List.getElem?_map

/-- **What is found is the function that was asked for.** -/
theorem Sound.role_of_find (h : b.Sound C known) (hids : DistinctIds known) {r : Reference}
    (hr : known r) {i : ℕ} (hfind : b.find r = some i) : b.roles[i]? = some (.reference r) := by
  obtain ⟨hi, hfor, -⟩ := List.findIdx?_eq_some_iff_getElem.mp hfind
  have hmem : b.roles[i] ∈ b.roles := List.getElem_mem hi
  rw [List.getElem?_eq_getElem hi]
  cases hrole : b.roles[i] with
  | vmEntryThunk f =>
      rw [hrole] at hfor
      simp [Role.isFor] at hfor
  | reference r' =>
      rw [hrole] at hfor hmem
      rw [hids r' r (h.knows r' hmem) hr hfor]

/-- A function that has been created is found. -/
theorem exists_find_of_mem {r : Reference} (hmem : .reference r ∈ b.roles) :
    ∃ i, b.find r = some i := by
  cases hfind : b.find r with
  | some i => exact ⟨i, rfl⟩
  | none =>
      rw [find, List.findIdx?_eq_none_iff] at hfind
      exact absurd (isFor_self r) (by simp [hfind _ hmem])

/-- A new builder is sound. -/
theorem new_sound (C : Compiler) (known : Reference → Prop) (scriptModule : Option String)
    (ps : List PendingFunction) :
    ({ ModuleBuilder.new scriptModule with pendingFunctions := ps } : ModuleBuilder).Sound C
      known where
  named := .nil
  attached _ h := absurd h List.not_mem_nil
  nodup := List.nodup_nil
  knows _ h := absurd h List.not_mem_nil
  thunks f := by simp [roles, new, isCompiled]
  bodies _ h := absurd h List.not_mem_nil
  calls _ h := absurd h List.not_mem_nil
  asked _ h := absurd h List.not_mem_nil
  symbols _ h := absurd h List.not_mem_nil
  compiledOnce := List.nodup_nil

/-- The names that are taken, when no function has been removed. -/
theorem takenNames_eq (h : ∀ fn ∈ b.functions, fn.attached = true) :
    b.takenNames = standardFunctionNames ++ b.signatures.map Prod.snd := by
  rw [takenNames, List.filter_eq_self.mpr fun fn hfn => h fn hfn, signatures, List.map_map]
  rfl

/-- Code that is emitted into a function changes no name. -/
theorem signatures_emitBody (b : ModuleBuilder) (i : ℕ) (f : OwnedFunction)
    (calls : List (Reference × ℕ)) : (b.emitBody i f calls).signatures = b.signatures := by
  apply List.ext_getElem?
  intro k
  rw [signatures, signatures, List.getElem?_map, List.getElem?_map, emitBody,
    List.getElem?_modify]
  cases b.functions[k]? with
  | none => rfl
  | some fn => by_cases hik : i = k <;> simp [hik]

theorem roles_eq_signatures (b : ModuleBuilder) : b.roles = b.signatures.map Prod.fst := by
  rw [roles, signatures, List.map_map]
  rfl

/-- A function that is compiled is in the map. -/
theorem Sound.exists_find (h : b.Sound C known) {f : OwnedFunction}
    (hf : b.isCompiled f = true) : ∃ i, b.find (.script f) = some i := by
  obtain ⟨s, hs, hsf⟩ := List.any_eq_true.mp hf
  obtain ⟨-, i, -, hi, -⟩ := h.symbols s hs
  rw [of_decide_eq_true hsf] at hi
  exact ⟨i, hi⟩

end ModuleBuilder

namespace Compiler

variable {C : Compiler} {known : Reference → Prop} {b : ModuleBuilder}

/-- A new function has the name that makes it unique. -/
theorem uniqueName_eq (h : ∀ fn ∈ b.functions, fn.attached = true) (role : Role) :
    C.uniqueName b role = UniqueNames.assign Role.name (C.renamed b.scriptModule)
      (standardFunctionNames ++ b.signatures.map Prod.snd) role := by
  rw [uniqueName, ModuleBuilder.takenNames_eq h]
  rfl

/-- **Asking for a function** keeps a builder sound. -/
theorem get_sound (h : b.Sound C known) {r : Reference} (hr : known r) :
    (C.get b r).2.Sound C known := by
  have hgrown := C.grown_get b r
  rw [get] at hgrown ⊢
  cases hfind : b.find r with
  | some i => exact h
  | none =>
      rw [hfind] at hgrown
      dsimp only at hgrown ⊢
      have hnew : .reference r ∉ b.roles := by
        intro hmem
        obtain ⟨i, hi⟩ := ModuleBuilder.exists_find_of_mem hmem
        rw [hi] at hfind
        cases hfind
      have hroles : (C.create b (.reference r)).roles = b.roles ++ [.reference r] := by
        simp [ModuleBuilder.roles, create]
      have hcompiled : ∀ f, r = .script f → b.isCompiled f = false := by
        rintro f rfl
        rw [← Bool.not_eq_true]
        intro hf
        obtain ⟨i, hi⟩ := h.exists_find hf
        rw [hi] at hfind
        cases hfind
      have hmem : ∀ fn ∈ (C.create b (.reference r)).functions, fn ∈ b.functions ∨
          fn = ⟨.reference r, C.uniqueName b (.reference r), true, [], []⟩ := by
        intro fn hfn
        simpa [create] using hfn
      constructor
      · have hsignatures : (C.create b (.reference r)).signatures =
            b.signatures ++ [(.reference r, C.uniqueName b (.reference r))] := by
          simp [ModuleBuilder.signatures, create]
        rw [hsignatures, uniqueName_eq h.attached]
        exact .snoc _ h.named
      · intro fn hfn
        rcases hmem fn hfn with hfn | rfl
        · exact h.attached fn hfn
        · rfl
      · rw [hroles, List.nodup_append]
        refine ⟨h.nodup, List.nodup_singleton _, ?_⟩
        rintro role hrole role' hrole' rfl
        rw [List.mem_singleton] at hrole'
        exact hnew (hrole' ▸ hrole)
      · intro r' hr'
        rw [hroles, List.mem_append, List.mem_singleton] at hr'
        rcases hr' with hr' | hr'
        · exact h.knows r' hr'
        · injection hr' with hr'
          exact hr' ▸ hr
      · intro f
        rw [hroles, List.mem_append, List.mem_singleton]
        exact (or_iff_left Role.noConfusion).trans (h.thunks f)
      · intro fn hfn
        rcases hmem fn hfn with hfn | rfl
        · exact h.bodies fn hfn
        · cases r with
          | script f =>
              have hf : (C.create b (.reference (.script f))).isCompiled f = false :=
                hcompiled f rfl
              simp [hf]
          | system f => rfl
      · intro fn hfn call hcall
        rcases hmem fn hfn with hfn | rfl
        · exact (h.calls fn hfn call hcall).imp_right hgrown.find
        · cases hcall
      · intro fn hfn f hrole
        rcases hmem fn hfn with hfn | rfl
        · exact h.asked fn hfn f hrole
        · injection hrole with hrole
          have hf : (C.create b (.reference r)).isCompiled f = false := hcompiled f hrole
          rw [hf]
          rfl
      · intro s hs
        obtain ⟨hname, i, j, hi, hj⟩ := h.symbols s hs
        refine ⟨hname, i, j, hgrown.find hi, ?_⟩
        obtain ⟨hlt, -⟩ := List.getElem?_eq_some_iff.mp hj
        simpa [create, List.getElem?_append_left hlt] using hj
      · exact h.compiledOnce

/-- Asking for a function puts it at the end of the module, unless it is there. -/
theorem get_requests (h : b.Sound C known) (hids : DistinctIds known) {r : Reference}
    (hr : known r) : SameFirst (C.get b r).2.roles (b.roles ++ [.reference r]) := by
  rw [get]
  cases hfind : b.find r with
  | none =>
      intro P
      simp [ModuleBuilder.roles, create]
  | some i =>
      refine SameFirst.of_subset ?_
      rintro _ (_ | ⟨_, ⟨⟩⟩)
      exact List.mem_of_getElem? (h.role_of_find hids hr hfind)

theorem getAll_requests (h : b.Sound C known) (hids : DistinctIds known) {rs : List Reference}
    (hrs : ∀ r ∈ rs, known r) :
    SameFirst (C.getAll rs b).2.roles (b.roles ++ rs.map .reference) := by
  induction rs generalizing b with
  | nil =>
      intro P
      simp [getAll]
  | cons r rs ih =>
      have hr := hrs r List.mem_cons_self
      have hrest := ih (get_sound h hr) fun r' hr' => hrs r' (List.mem_cons_of_mem r hr')
      refine hrest.trans ?_
      rw [List.map_cons, List.append_cons]
      exact (get_requests h hids hr).append _

/-- **Asking for functions**, one after the other: the builder stays sound, and the calls go to what
was asked for. -/
theorem getAll_sound (h : b.Sound C known) {rs : List Reference} (hrs : ∀ r ∈ rs, known r) :
    (C.getAll rs b).2.Sound C known ∧ (C.getAll rs b).1.map Prod.fst = rs ∧
      ∀ call ∈ (C.getAll rs b).1, known call.1 ∧ (C.getAll rs b).2.find call.1 = some call.2 := by
  induction rs generalizing b with
  | nil => exact ⟨h, rfl, fun _ hcall => absurd hcall List.not_mem_nil⟩
  | cons r rs ih =>
      obtain ⟨hsound, hfst, hcalls⟩ := ih (get_sound h (hrs r List.mem_cons_self))
        fun r' hr' => hrs r' (List.mem_cons_of_mem r hr')
      refine ⟨hsound, congrArg (r :: ·) hfst, ?_⟩
      intro call hcall
      rcases List.mem_cons.mp hcall with rfl | hcall
      · exact ⟨hrs r List.mem_cons_self, (C.grown_getAll rs _).find (C.find_get b r)⟩
      · exact hcalls call hcall

theorem addEntryThunk_functions (C : Compiler) (b : ModuleBuilder) (i : ℕ) (p : PendingFunction) :
    (C.addEntryThunk b i p).functions = b.functions ++
      [⟨.vmEntryThunk p.function, C.uniqueName b (.vmEntryThunk p.function), true, [p.function],
        [(.script p.function, i)]⟩] := by
  simp only [addEntryThunk, ModuleBuilder.emitBody, create]
  rw [List.modify_eq_take_drop]
  simp

/-- A function of the module in which code has been emitted into the place of a function. -/
theorem mem_emitBody (h : b.Sound C known) (hids : DistinctIds known) {f : OwnedFunction}
    (hf : known (.script f)) {i : ℕ} (hi : b.find (.script f) = some i)
    {calls : List (Reference × ℕ)} {fn : LlvmFunction}
    (hfn : fn ∈ (b.emitBody i f calls).functions) :
    (fn ∈ b.functions ∧ fn.role ≠ .reference (.script f)) ∨
      ∃ fn₀ ∈ b.functions, fn₀.role = .reference (.script f) ∧
        fn = { fn₀ with bodies := fn₀.bodies ++ [f], calls := fn₀.calls ++ calls } := by
  have hrole := h.role_of_find hids hf hi
  obtain ⟨k, hk⟩ := List.mem_iff_getElem?.mp hfn
  rw [ModuleBuilder.emitBody, List.getElem?_modify] at hk
  cases hfn₀ : b.functions[k]? with
  | none =>
      rw [hfn₀] at hk
      cases hk
  | some fn₀ =>
      rw [hfn₀] at hk
      have hrole₀ : b.roles[k]? = some fn₀.role := by rw [b.roles_getElem?, hfn₀]; rfl
      by_cases hik : i = k
      · subst hik
        refine .inr ⟨fn₀, List.mem_of_getElem? hfn₀, Option.some.inj (hrole₀.symm.trans hrole), ?_⟩
        simpa using hk.symm
      · obtain rfl : fn₀ = fn := by simpa [hik] using hk
        refine .inl ⟨List.mem_of_getElem? hfn₀, fun heq => hik ?_⟩
        rw [heq, ← hrole] at hrole₀
        obtain ⟨hlt, -⟩ := List.getElem?_eq_some_iff.mp hrole
        exact ((List.getElem?_inj hlt h.nodup).mp hrole₀.symm)

/-- **A function that gets its code and its thunk** leaves a sound builder. -/
theorem addEntryThunk_sound (h : b.Sound C known) (hids : DistinctIds known) {p : PendingFunction}
    (hp : known (.script p.function)) (hnew : b.isCompiled p.function = false) {i : ℕ}
    (hi : b.find (.script p.function) = some i) {calls : List (Reference × ℕ)}
    (hfst : calls.map Prod.fst = C.asked p.function)
    (hcalls : ∀ call ∈ calls, known call.1 ∧ b.find call.1 = some call.2) :
    (C.addEntryThunk (b.emitBody i p.function calls) i p).Sound C known := by
  have hmem := fun fn => @mem_emitBody C known b h hids p.function hp i hi calls fn
  have hsignatures := b.signatures_emitBody i p.function calls
  have hgrown := b.grown_emitBody i p.function calls
  have hlength : (b.emitBody i p.function calls).functions.length = b.functions.length := by
    simp [ModuleBuilder.emitBody]
  have hattached : ∀ fn ∈ (b.emitBody i p.function calls).functions, fn.attached = true := by
    intro fn hfn
    rcases hmem fn hfn with ⟨hfn, -⟩ | ⟨fn₀, hfn₀, -, rfl⟩
    · exact h.attached fn hfn
    · exact h.attached fn₀ hfn₀
  have hcompiled : ∀ g, (C.addEntryThunk (b.emitBody i p.function calls) i p).isCompiled g =
      (b.isCompiled g || decide (p.function = g)) := by
    intro g
    simp [ModuleBuilder.isCompiled, addEntryThunk_jitFunctions, ModuleBuilder.emitBody]
  have hroles : (C.addEntryThunk (b.emitBody i p.function calls) i p).roles =
      b.roles ++ [.vmEntryThunk p.function] := by
    rw [ModuleBuilder.roles, addEntryThunk_functions, List.map_append, b.roles_eq_signatures,
      ← hsignatures, ← ModuleBuilder.roles_eq_signatures]
    rfl
  have hfunctions := C.addEntryThunk_functions (b.emitBody i p.function calls) i p
  have hfind : ∀ {r : Reference} {k : ℕ}, b.find r = some k →
      (C.addEntryThunk (b.emitBody i p.function calls) i p).find r = some k := by
    intro r k hk
    rw [ModuleBuilder.find] at hk ⊢
    rw [hroles, List.findIdx?_append, hk]
    rfl
  have hthunk : .vmEntryThunk p.function ∉ b.roles := by
    rw [h.thunks]
    simp [hnew]
  generalize hb' : C.addEntryThunk (b.emitBody i p.function calls) i p = b' at *
  have hmem' : ∀ fn ∈ b'.functions, fn ∈ (b.emitBody i p.function calls).functions ∨
      fn = ⟨.vmEntryThunk p.function,
        C.uniqueName (b.emitBody i p.function calls) (.vmEntryThunk p.function), true,
        [p.function], [(.script p.function, i)]⟩ := by
    intro fn hfn
    rw [hfunctions] at hfn
    simpa using hfn
  have hfn₀ : ∀ fn₀ ∈ b.functions, fn₀.role = .reference (.script p.function) →
      fn₀.bodies = [] ∧ fn₀.calls = [] := by
    intro fn₀ hfn₀ hrole
    have hbodies := h.bodies fn₀ hfn₀
    have hasked := h.asked fn₀ hfn₀ p.function hrole
    rw [hrole] at hbodies
    simp only [hnew, Bool.false_eq_true, if_false] at hbodies hasked
    exact ⟨hbodies, List.map_eq_nil_iff.mp hasked⟩
  constructor
  · have hscriptModule : b'.scriptModule = b.scriptModule := by rw [← hb']; rfl
    have hnames : b'.signatures = b.signatures ++ [(.vmEntryThunk p.function,
        C.uniqueName (b.emitBody i p.function calls) (.vmEntryThunk p.function))] := by
      rw [← hsignatures, ModuleBuilder.signatures, hfunctions, List.map_append]
      rfl
    rw [hnames, uniqueName_eq hattached, hsignatures, hscriptModule]
    exact .snoc _ h.named
  · intro fn hfn
    rcases hmem' fn hfn with hfn | rfl
    · exact hattached fn hfn
    · rfl
  · rw [hroles, List.nodup_append]
    refine ⟨h.nodup, List.nodup_singleton _, ?_⟩
    rintro role hrole role' hrole' rfl
    rw [List.mem_singleton] at hrole'
    exact hthunk (hrole' ▸ hrole)
  · intro r hr
    rw [hroles, List.mem_append, List.mem_singleton] at hr
    exact h.knows r (hr.resolve_right Role.noConfusion)
  · intro g
    rw [hroles, List.mem_append, List.mem_singleton, h.thunks, hcompiled, Bool.or_eq_true,
      decide_eq_true_eq, Role.vmEntryThunk.injEq]
    exact or_congr_right eq_comm
  · intro fn hfn
    rcases hmem' fn hfn with hfn | rfl
    · rcases hmem fn hfn with ⟨hfn, hother⟩ | ⟨fn₀, hmem₀, hrole, rfl⟩
      · rw [h.bodies fn hfn]
        split
        · rename_i g hg
          rw [hcompiled]
          have hne : p.function ≠ g := by
            rintro rfl
            exact hother hg
          simp [hne]
        · rfl
        · rfl
      · simp only [hrole, hcompiled, (hfn₀ fn₀ hmem₀ hrole).1]
        simp
    · rfl
  · intro fn hfn call hcall
    rcases hmem' fn hfn with hfn | rfl
    · rcases hmem fn hfn with ⟨hfn, -⟩ | ⟨fn₀, hmem₀, hrole, rfl⟩
      · exact (h.calls fn hfn call hcall).imp_right hfind
      · rw [(hfn₀ fn₀ hmem₀ hrole).2, List.nil_append] at hcall
        exact (hcalls call hcall).imp_right hfind
    · rw [List.mem_singleton.mp hcall]
      exact ⟨hp, hfind hi⟩
  · intro fn hfn g hg
    rcases hmem' fn hfn with hfn | rfl
    · rcases hmem fn hfn with ⟨hfn, hother⟩ | ⟨fn₀, hmem₀, hrole, rfl⟩
      · have hne : p.function ≠ g := by
          rintro rfl
          exact hother hg
        rw [h.asked fn hfn g hg, hcompiled]
        simp [hne]
      · obtain rfl : p.function = g := by
          have := hrole.symm.trans hg
          simpa using this
        rw [(hfn₀ fn₀ hmem₀ hrole).2, hcompiled]
        simpa using hfst
    · cases hg
  · intro s hs
    have hjit : b'.jitFunctions = b.jitFunctions ++ [⟨p.function, makeFunctionName p.function,
        C.uniqueName (b.emitBody i p.function calls) (.vmEntryThunk p.function),
        p.jitFunction⟩] := by
      rw [← hb', addEntryThunk_jitFunctions]
      rfl
    rw [hjit, List.mem_append, List.mem_singleton] at hs
    rcases hs with hs | rfl
    · obtain ⟨hname, i', j, hi', hj⟩ := h.symbols s hs
      refine ⟨hname, i', j, hfind hi', ?_⟩
      -- the thunk of another function is left as it is
      obtain ⟨hlt, -⟩ := List.getElem?_eq_some_iff.mp hj
      have hij : i ≠ j := by
        rintro rfl
        have hrole := h.role_of_find hids hp hi
        rw [b.roles_getElem?, hj] at hrole
        simp at hrole
      rw [hfunctions, List.getElem?_append_left (by omega), ModuleBuilder.emitBody,
        List.getElem?_modify, hj]
      simp [hij]
    · refine ⟨rfl, i, b.functions.length, hfind hi, ?_⟩
      rw [hfunctions, List.getElem?_append_right (by omega), hlength, Nat.sub_self]
      rfl
  · have hjit : b'.jitFunctions.map (·.scriptFunction) =
        b.jitFunctions.map (·.scriptFunction) ++ [p.function] := by
      rw [← hb', addEntryThunk_jitFunctions, List.map_append]
      rfl
    rw [hjit, List.nodup_append]
    refine ⟨h.compiledOnce, List.nodup_singleton _, ?_⟩
    rintro g hg g' hg' rfl
    rw [List.mem_singleton] at hg'
    obtain ⟨s, hs, hsg⟩ := List.mem_map.mp hg
    have hbad : b.isCompiled p.function = true :=
      List.any_eq_true.mpr ⟨s, hs, by simp [hsg, hg']⟩
    rw [hnew] at hbad
    cases hbad

/-- **Building a function** keeps a builder sound. -/
theorem buildFunction_sound {b' : ModuleBuilder} (h : b.Sound C known) (hids : DistinctIds known)
    {p : PendingFunction} (hp : known (.script p.function))
    (hasked : ∀ r ∈ C.asked p.function, known r) (hnew : b.isCompiled p.function = false)
    (hbuild : C.buildFunction b p = .done b') : b'.Sound C known := by
  obtain ⟨-, -, rfl⟩ := buildFunction_done hbuild
  obtain ⟨hsound, hfst, hcalls⟩ := getAll_sound (get_sound h hp) hasked
  have hgrown := (C.grown_get b (.script p.function)).trans (C.grown_getAll (C.asked p.function) _)
  refine addEntryThunk_sound hsound hids hp ?_ ?_ hfst hcalls
  · rw [ModuleBuilder.isCompiled, hgrown.jitFunctions]
    exact hnew
  · exact (C.grown_getAll (C.asked p.function) _).find (C.find_get b _)

/-- **What a function wants of its module**, one after the other, is there once it is built. -/
theorem buildFunction_requests {b' : ModuleBuilder} (h : b.Sound C known)
    (hids : DistinctIds known) {p : PendingFunction} (hp : known (.script p.function))
    (hasked : ∀ r ∈ C.asked p.function, known r) (hbuild : C.buildFunction b p = .done b') :
    SameFirst b'.roles (b.roles ++ C.requests p.function) := by
  obtain ⟨-, -, rfl⟩ := buildFunction_done hbuild
  have hroles : (C.addEntryThunk (C.translate b p.function).2 (C.translate b p.function).1 p).roles =
      (C.getAll (C.asked p.function) (C.get b (.script p.function)).2).2.roles ++
        [.vmEntryThunk p.function] := by
    rw [ModuleBuilder.roles, addEntryThunk_functions, List.map_append,
      ModuleBuilder.roles_eq_signatures, ← ModuleBuilder.signatures_emitBody _
        (C.get b (.script p.function)).1 p.function
        (C.getAll (C.asked p.function) (C.get b (.script p.function)).2).1,
      ← ModuleBuilder.roles_eq_signatures]
    rfl
  rw [hroles]
  have hrequests : b.roles ++ C.requests p.function = b.roles ++ [.reference (.script p.function)] ++
      (C.asked p.function).map .reference ++ [.vmEntryThunk p.function] := by
    simp [requests]
  rw [hrequests]
  refine SameFirst.append ?_ _
  exact (getAll_requests (get_sound h hp) hids hasked).trans ((get_requests h hids hp).append _)

/-- What a compiled function wanted is there. -/
theorem requests_subset (h : b.Sound C known) (hids : DistinctIds known) {f : OwnedFunction}
    (hf : known (.script f)) (hcompiled : b.isCompiled f = true) :
    C.requests f ⊆ b.roles := by
  obtain ⟨i, hi⟩ := h.exists_find hcompiled
  have hrole := h.role_of_find hids hf hi
  have hplace := hrole
  rw [b.roles_getElem?] at hplace
  obtain ⟨fn, hfn, hfnRole⟩ := Option.map_eq_some_iff.mp hplace
  have hmem := List.mem_of_getElem? hfn
  have hcalls := h.asked fn hmem f hfnRole
  rw [if_pos hcompiled] at hcalls
  intro role hrequest
  rw [requests, List.cons_append, List.mem_cons, List.mem_append, List.mem_singleton] at hrequest
  rcases hrequest with rfl | hrequest | rfl
  · exact List.mem_of_getElem? hrole
  · obtain ⟨r, hr, rfl⟩ := List.mem_map.mp hrequest
    rw [← hcalls] at hr
    obtain ⟨call, hcall, rfl⟩ := List.mem_map.mp hr
    obtain ⟨hknown, hplace⟩ := h.calls fn hmem call hcall
    exact List.mem_of_getElem? (h.role_of_find hids hknown hplace)
  · exact (h.thunks f).mpr hcompiled

/-- **Building what is pending** keeps a builder sound; compiled are then the functions that were
compiled before and those of the list. -/
theorem buildPending_sound {b' : ModuleBuilder} (h : b.Sound C known) (hids : DistinctIds known)
    (ps : List PendingFunction)
    (hps : ∀ p ∈ ps, known (.script p.function) ∧ ∀ r ∈ C.asked p.function, known r)
    (hbuild : C.buildPending ps b = .done b') :
    b'.Sound C known ∧ b'.scriptModule = b.scriptModule ∧ b'.moved = b.moved ∧
      (∀ f, b'.isCompiled f = true ↔ b.isCompiled f = true ∨ ∃ p ∈ ps, p.function = f) ∧
      (∀ s ∈ b'.jitFunctions, s ∈ b.jitFunctions ∨
        ∃ p ∈ ps, p.function = s.scriptFunction ∧ p.jitFunction = s.jitFunction) ∧
      SameFirst b'.roles (b.roles ++ ps.flatMap fun p => C.requests p.function) := by
  induction ps generalizing b with
  | nil =>
      injection hbuild with hb
      subst hb
      exact ⟨h, rfl, rfl, fun f => by simp, fun s hs => .inl hs, fun P => by simp⟩
  | cons p ps ih =>
      have hrest := fun q hq => hps q (List.mem_cons_of_mem p hq)
      rw [buildPending] at hbuild
      by_cases hp : b.isCompiled p.function = true
      · rw [if_pos hp] at hbuild
        obtain ⟨hsound, howner, hmoved, hcompiled, hsymbols, hfirst⟩ := ih h hrest hbuild
        refine ⟨hsound, howner, hmoved, fun f => ?_, fun s hs => ?_, ?_⟩
        · rw [hcompiled]
          simp only [List.mem_cons, exists_eq_or_imp]
          constructor
          · exact Or.imp_right .inr
          · rintro (hf | rfl | hf)
            · exact .inl hf
            · exact .inl hp
            · exact .inr hf
        · rcases hsymbols s hs with hs | ⟨q, hq, hqs⟩
          · exact .inl hs
          · exact .inr ⟨q, List.mem_cons_of_mem p hq, hqs⟩
        · obtain ⟨hknown, -⟩ := hps p List.mem_cons_self
          rw [List.flatMap_cons, ← List.append_assoc]
          exact hfirst.trans
            ((SameFirst.of_subset (requests_subset h hids hknown hp)).append _)
      · rw [if_neg hp] at hbuild
        cases hone : C.buildFunction b p with
        | done b₁ =>
            rw [hone] at hbuild
            obtain ⟨hknown, hasked⟩ := hps p List.mem_cons_self
            have hsound₁ := buildFunction_sound h hids hknown hasked (by simpa using hp) hone
            obtain ⟨hsound, howner, hmoved, hcompiled, hsymbols, hfirst⟩ :=
              ih hsound₁ hrest hbuild
            obtain ⟨hunmoved, -, hb₁⟩ := buildFunction_done hone
            have hgrown := C.grown_translate b p.function
            refine ⟨hsound, howner.trans ?_, hmoved.trans ?_, fun f => ?_, fun s hs => ?_, ?_⟩
            · rw [hb₁]
              exact hgrown.scriptModule
            · rw [hb₁]
              exact hgrown.moved
            · rw [hcompiled, buildFunction_done_isCompiled hone]
              simp only [Bool.or_eq_true, decide_eq_true_eq, List.mem_cons, exists_eq_or_imp,
                or_assoc]
            · rcases hsymbols s hs with hs | ⟨q, hq, hqs⟩
              · rw [hb₁, addEntryThunk_jitFunctions, hgrown.jitFunctions, List.mem_append,
                  List.mem_singleton] at hs
                rcases hs with hs | rfl
                · exact .inl hs
                · exact .inr ⟨p, List.mem_cons_self, rfl, rfl⟩
              · exact .inr ⟨q, List.mem_cons_of_mem p hq, hqs⟩
            · rw [List.flatMap_cons, ← List.append_assoc]
              exact hfirst.trans ((buildFunction_requests h hids hknown hasked hone).append _)
        | threw f b₁ => rw [hone] at hbuild; cases hbuild
        | aborted => rw [hone] at hbuild; cases hbuild
        | exited => rw [hone] at hbuild; cases hbuild
        | undefined => rw [hone] at hbuild; cases hbuild

/-- A build does not end in an exception when the first translation it stops at does not. -/
theorem buildFunctions_outcome (C : Compiler) (b : ModuleBuilder) (hmoved : b.moved = false)
    (hstops : C.stops b ≠ some .threw) :
    C.buildFunctions b = .aborted ∨ ∃ b', C.buildPending b.pendingFunctions b = .done b' ∧
      C.buildFunctions b = .done { b' with pendingFunctions := [] } := by
  have houtcome := C.buildPending_outcome b.pendingFunctions hmoved
  rw [buildFunctions]
  cases hstop : b.pendingFunctions.find? (C.stopsAt b) with
  | none =>
      rw [hstop] at houtcome
      obtain ⟨b', hb'⟩ := houtcome
      exact .inr ⟨b', hb', by rw [hb']⟩
  | some p =>
      rw [hstop] at houtcome
      rw [stops, hstop, Option.map_some] at hstops
      rw [Option.map_some] at houtcome
      cases hend : C.completion p.function with
      | returned => rw [hend] at houtcome; exact houtcome.elim
      | threw => exact absurd (congrArg some hend) hstops
      | aborted =>
          rw [hend] at houtcome
          rw [houtcome]
          exact .inl rfl

end Compiler

theorem BuildOutcome.andThen_done {σ τ : Type} {o : BuildOutcome σ} {next : σ → BuildOutcome τ}
    {left : σ → τ} {t : τ} (h : o.andThen next left = .done t) :
    ∃ a, o = .done a ∧ next a = .done t := by
  cases o with
  | done a => exact ⟨a, rfl, h⟩
  | threw f a => cases h
  | aborted => cases h
  | exited => cases h
  | undefined => cases h

/-! ### Names in two modules -/

namespace ModuleBuilder

variable {C : Compiler} {known : Reference → Prop} {b b' : ModuleBuilder}

/-- A function has the name it wants, or one that LLVM made from it. -/
theorem Sound.name_cases (h : b.Sound C known) {fn : LlvmFunction} (hfn : fn ∈ b.functions) :
    fn.name = fn.role.name ∨ ∃ taken, fn.name = C.renamed b.scriptModule taken fn.role :=
  h.named.cases (List.mem_map_of_mem (f := fun fn : LlvmFunction => (fn.role, fn.name)) hfn)

/-- **Functions with the same name** want the same name, and both have it or neither. -/
theorem Sound.name_eq (h : b.Sound C known) (h' : b'.Sound C known) {fn fn' : LlvmFunction}
    (hfn : fn ∈ b.functions) (hfn' : fn' ∈ b'.functions) (heq : fn.name = fn'.name) :
    fn.role.name = fn'.role.name ∧ (fn.name = fn.role.name ↔ fn'.name = fn'.role.name) := by
  rcases h.name_cases hfn with hname | ⟨taken, hname⟩ <;>
    rcases h'.name_cases hfn' with hname' | ⟨taken', hname'⟩
  · exact ⟨hname.symm.trans (heq.trans hname'), iff_of_true hname hname'⟩
  · exact absurd (hname'.symm.trans (heq.symm.trans hname)) (C.renamed_ne_name _ _ _ _)
  · exact absurd (hname.symm.trans (heq.trans hname')) (C.renamed_ne_name _ _ _ _)
  · refine ⟨(Compiler.renamed_eq (hname.symm.trans (heq.trans hname'))).1, iff_of_false ?_ ?_⟩
    · rw [hname]
      exact C.renamed_ne_name _ _ _ _
    · rw [hname']
      exact C.renamed_ne_name _ _ _ _

/-- No function of a module has the name of a function of the runtime. -/
theorem Sound.name_not_runtime (h : b.Sound C known) {fn : LlvmFunction}
    (hfn : fn ∈ b.functions) : fn.name ∉ runtimeNames := by
  intro hmem
  rcases h.name_cases hfn with hname | ⟨taken, hname⟩
  · exact fn.role.name_not_runtime (hname ▸ hmem)
  · obtain ⟨c, hc, hdigit⟩ := C.renamed_last b.scriptModule taken fn.role
    rw [← hname] at hc
    rw [runtimeNames_last hmem hc] at hdigit
    cases hdigit

/-- No two functions of a module have the same name. -/
theorem Sound.names_nodup (h : b.Sound C known) : (b.functions.map (·.name)).Nodup := by
  have hnodup := h.named.nodup (C.naming_lawful b.scriptModule)
  rwa [signatures, List.map_map] at hnodup

/-- **A function has the name it wants** exactly if it is the first that wants it. -/
theorem Sound.first_iff (h : b.Sound C known) {fn : LlvmFunction} (hfn : fn ∈ b.functions)
    {name : String} (hwanted : fn.role.name = name) :
    fn.name = fn.role.name ↔ b.roles.find? (fun role => role.name = name) = some fn.role := by
  subst hwanted
  obtain ⟨l₁, l₂, hl⟩ := List.append_of_mem hfn
  have hsignatures : b.signatures = l₁.map (fun fn => (fn.role, fn.name)) ++
      (fn.role, fn.name) :: l₂.map fun fn => (fn.role, fn.name) := by
    rw [signatures, hl, List.map_append, List.map_cons]
  have hnamed := h.named
  rw [hsignatures] at hnamed
  have hiff := hnamed.wanted_iff (C.naming_lawful b.scriptModule)
  dsimp only at hiff
  have hroles : b.roles = l₁.map (·.role) ++ fn.role :: l₂.map (·.role) := by
    rw [roles, hl, List.map_append, List.map_cons]
  rw [hiff, hroles, List.find?_append]
  constructor
  · intro hall
    have hnone : (l₁.map (·.role)).find? (fun role => role.name = fn.role.name) = none := by
      rw [List.find?_eq_none]
      intro role hrole
      obtain ⟨fn₁, hfn₁, rfl⟩ := List.mem_map.mp hrole
      simpa using hall _ (List.mem_map_of_mem hfn₁)
    rw [hnone]
    simp
  · intro hfirst q hq hname
    obtain ⟨fn₁, hfn₁, rfl⟩ := List.mem_map.mp hq
    have hsome : ((l₁.map (·.role)).find? fun role => role.name = fn.role.name).isSome = true :=
      List.find?_isSome.mpr ⟨fn₁.role, List.mem_map_of_mem hfn₁, decide_eq_true hname⟩
    obtain ⟨role, hrole⟩ := Option.isSome_iff_exists.mp hsome
    rw [hrole] at hfirst
    obtain rfl := Option.some.inj hfirst
    -- it would be in the module twice
    have hnodup := h.nodup
    rw [hroles, List.nodup_append] at hnodup
    exact hnodup.2.2 fn.role (List.mem_of_find?_eq_some hrole) fn.role List.mem_cons_self rfl

/-- **A name that a function of the module wants** is the name of the first function that wants
it. -/
theorem Sound.exists_named (h : b.Sound C known) {role : Role} (hrole : role ∈ b.roles) :
    ∃ fn ∈ b.functions, fn.name = role.name ∧
      b.roles.find? (fun role' => role'.name = role.name) = some fn.role := by
  rw [roles_eq_signatures] at hrole
  obtain ⟨p, hp, hprole⟩ := List.mem_map.mp hrole
  have hlaw := C.naming_lawful b.scriptModule
  have hmem := (h.named.mem_iff hlaw role).mpr ⟨p, hp, congrArg Role.name hprole⟩
  rcases List.mem_append.mp hmem with hmem | hmem
  · exact absurd (List.mem_append_left _ hmem) role.name_not_runtime
  · rw [signatures, List.map_map] at hmem
    obtain ⟨fn, hfn, hname⟩ := List.mem_map.mp hmem
    have hwanted : fn.role.name = role.name := by
      rcases h.name_cases hfn with hwanted | ⟨taken, hrenamed⟩
      · exact hwanted.symm.trans hname
      · exact absurd (hrenamed.symm.trans hname) (C.renamed_ne_name _ _ _ _)
    refine ⟨fn, hfn, hname, (h.first_iff hfn hwanted).mp (Eq.trans hname hwanted.symm)⟩

end ModuleBuilder

/-! ### A module that has been built -/

/-- **A well-formed module** of the functions that were submitted: names of its own, code for these
functions and their thunks, and for nothing else, and calls that lead where they are meant to. -/
structure ModuleBuilder.WellFormed (b : ModuleBuilder) (submitted : OwnedFunction → Prop) : Prop where
  members : ∀ fn ∈ b.functions, fn.attached = true
  names_nodup : (b.functions.map (·.name)).Nodup
  not_runtime : ∀ fn ∈ b.functions, fn.name ∉ runtimeNames
  createdOnce : (b.functions.map (·.role)).Nodup
  translated : ∀ f, submitted f →
    ∃ fn ∈ b.functions, fn.role = .reference (.script f) ∧ fn.bodies = [f]
  entered : ∀ f, submitted f → ∃ fn ∈ b.functions, ∃ i : ℕ, fn.role = .vmEntryThunk f ∧
    fn.bodies = [f] ∧ fn.calls = [(.script f, i)] ∧ b.roles[i]? = some (.reference (.script f))
  declared : ∀ fn ∈ b.functions, fn.bodies ≠ [] → ∃ f, submitted f ∧ fn.bodies = [f] ∧
    (fn.role = .reference (.script f) ∨ fn.role = .vmEntryThunk f)
  linked : ∀ fn ∈ b.functions, ∀ call ∈ fn.calls, b.roles[call.2]? = some (.reference call.1)
  symbols : ∀ f, submitted f ↔ f ∈ b.jitFunctions.map (·.scriptFunction)
  symbols_nodup : (b.jitFunctions.map (·.scriptFunction)).Nodup

namespace Compiler

variable {C : Compiler} {known : Reference → Prop} {b : ModuleBuilder}

/-- **What a builder builds is well formed**, whatever is submitted to it, and how often. -/
theorem buildFunctions_wellFormed (hids : DistinctIds known) (owner : Option String)
    (ps : List PendingFunction)
    (hps : ∀ p ∈ ps, known (.script p.function) ∧ ∀ r ∈ C.asked p.function, known r)
    (hdone : C.buildFunctions (ps.foldl ModuleBuilder.append (.new owner)) = .done b) :
    b.WellFormed (fun f => ∃ p ∈ ps, p.function = f) ∧ b.pendingFunctions = [] := by
  rw [foldl_append, buildFunctions] at hdone
  dsimp only [ModuleBuilder.new, List.nil_append] at hdone
  split at hdone
  case h_2 b' hother => exact absurd hdone (hother b)
  case h_1 b' hpending =>
    injection hdone with hb
    subst hb
    obtain ⟨hsound, -, -, hcompiled, -, -⟩ :=
      buildPending_sound (ModuleBuilder.new_sound C known owner ps) hids ps hps hpending
    have hsubmitted : ∀ f, b'.isCompiled f = true ↔ ∃ p ∈ ps, p.function = f := by
      intro f
      rw [hcompiled]
      exact or_iff_right Bool.false_ne_true
    have hknown : ∀ f, (∃ p ∈ ps, p.function = f) → known (.script f) := by
      rintro f ⟨p, hp, rfl⟩
      exact (hps p hp).1
    refine ⟨?_, rfl⟩
    constructor
    · exact hsound.attached
    · exact hsound.names_nodup
    · exact fun fn hfn => hsound.name_not_runtime hfn
    · exact hsound.nodup
    · intro f hf
      have hcompiledf := (hsubmitted f).mpr hf
      obtain ⟨i, hi⟩ := hsound.exists_find hcompiledf
      have hrole := hsound.role_of_find hids (hknown f hf) hi
      rw [ModuleBuilder.roles_getElem?] at hrole
      obtain ⟨fn, hfn, hfnrole⟩ := Option.map_eq_some_iff.mp hrole
      have hmem := List.mem_of_getElem? hfn
      have hbodies := hsound.bodies fn hmem
      rw [hfnrole] at hbodies
      exact ⟨fn, hmem, hfnrole, hbodies.trans (if_pos hcompiledf)⟩
    · intro f hf
      obtain ⟨s, hs, hsf⟩ := List.any_eq_true.mp ((hsubmitted f).mpr hf)
      obtain ⟨-, i, j, hi, hj⟩ := hsound.symbols s hs
      rw [of_decide_eq_true hsf] at hi hj
      exact ⟨_, List.mem_of_getElem? hj, i, rfl, rfl, rfl,
        hsound.role_of_find hids (hknown f hf) hi⟩
    · intro fn hfn hcode
      have hbodies := hsound.bodies fn hfn
      rcases hrole : fn.role with (f | f) | f
      · rw [hrole] at hbodies
        by_cases hf : b'.isCompiled f = true
        · exact ⟨f, (hsubmitted f).mp hf, hbodies.trans (if_pos hf), .inl rfl⟩
        · exact absurd (hbodies.trans (if_neg hf)) hcode
      · rw [hrole] at hbodies
        exact absurd hbodies hcode
      · rw [hrole] at hbodies
        have hmem : Role.vmEntryThunk f ∈ b'.roles := hrole ▸ List.mem_map_of_mem hfn
        exact ⟨f, (hsubmitted f).mp ((hsound.thunks f).mp hmem), hbodies, .inr rfl⟩
    · intro fn hfn call hcall
      obtain ⟨hcallknown, hfind⟩ := hsound.calls fn hfn call hcall
      exact hsound.role_of_find hids hcallknown hfind
    · intro f
      rw [← hsubmitted f, ModuleBuilder.isCompiled, List.any_eq_true, List.mem_map]
      simp only [decide_eq_true_eq]
    · exact hsound.compiledOnce

/-- A build that does not stop ends. -/
theorem exists_done_of_stops (hmoved : b.moved = false) (hstops : C.stops b = none) :
    ∃ b', C.buildFunctions b = .done b' := by
  have houtcome := C.buildPending_outcome b.pendingFunctions hmoved
  rw [stops] at hstops
  rw [hstops] at houtcome
  obtain ⟨b', hb'⟩ := houtcome
  exact ⟨_, by rw [buildFunctions, hb']⟩

/-- A builder with the same function pending twice. -/
def twiceBuilder : ModuleBuilder :=
  (parameterBuilder.pendingFunctions ++ parameterBuilder.pendingFunctions).foldl
    ModuleBuilder.append (.new (some "m"))

theorem twiceBuilder_moved : twiceBuilder.moved = false := rfl

/-- **A function that is submitted twice** is in the module once, if it returns at once. -/
theorem buildFunctions_wellFormed_twice : ∃ b,
    (ofBytecode (fun _ => retBytecode) fun _ => []).buildFunctions twiceBuilder = .done b ∧
      b.WellFormed fun f => ∃ p ∈ twiceBuilder.pendingFunctions, p.function = f := by
  have hreturns : (ofBytecode (fun _ => retBytecode) fun _ => []).completion
      (parameterless 1 (some "m") "void f") = .returned := by
    decide +kernel
  have hstops : (ofBytecode (fun _ => retBytecode) fun _ => []).stops twiceBuilder = none := by
    simp [stops, stopsAt, twiceBuilder, parameterBuilder, ModuleBuilder.append, ModuleBuilder.new,
      hreturns]
  obtain ⟨b, hb⟩ := exists_done_of_stops twiceBuilder_moved hstops
  have hids : DistinctIds (· = .script (parameterless 1 (some "m") "void f")) :=
    fun r r' hr hr' _ => hr.trans hr'.symm
  refine ⟨b, hb, (buildFunctions_wellFormed hids _ _ (fun p hp => ?_) hb).1⟩
  obtain rfl : p = ⟨parameterless 1 (some "m") "void f", 0⟩ := by
    rcases List.mem_append.mp hp with hp | hp <;> exact List.mem_singleton.mp hp
  exact ⟨rfl, fun r hr => absurd hr List.not_mem_nil⟩

end Compiler

end Asllvm
