import Mathlib.Data.List.Nodup
import Mathlib.Data.List.Perm.Subperm
import Asllvm.ControlFlow

/-!
# Building a Module

`ModuleBuilder`, between the functions that are submitted to it and the LLVM module it fills. A
function of the module is found again by the id of the script function it was asked for; it gets a
name of its own, a body when it is translated, and it leaves the module again when its translation
throws.

* `OwnedFunction` — a function of the engine with the module that owns it; `makeFunctionName`,
  `makeVmEntryThunkName`, `makeSystemFunctionName` name it.
* `Naming` — how LLVM tells equal names apart.
* `Compiler` — what the builders of one compiler share: the engine, the bytecode of the functions,
  which functions a translation asks for, and the naming.
* `ModuleBuilder.get` — `get_script_function` and `get_system_function`.
* `Compiler.buildFunctions` — the translation of what is pending.
* `Compiler.LeavesAsItWas` — what a build that throws has to leave behind.

## Main results

* `buildFunctions_threw_keeps` — a build that throws keeps all symbols, the new ones included, and
  all that is pending.
* `buildFunctions_again` — the next build of the same module takes the function out of the module a
  second time.
* `leavesAsItWas_iff` — a build leaves the builder as it was exactly if none of its translations
  throws.
-/

namespace Asllvm

/-! ### Names -/

/-- `asCScriptFunction` together with `GetModule()`, by its name. A declaration ends with the
parameter list, with the `const` of a method behind it, or with the list pattern of a list factory. -/
structure OwnedFunction extends ScriptFunction where
  moduleName : Option String
  declaration_ends :
    ∃ s, declaration = s ++ ")" ∨ declaration = s ++ ") const" ∨ declaration = s ++ " \x7d"
deriving DecidableEq

/-- `make_module_name`. -/
def makeModuleName : Option String → String
  | none => "asllvm.shared"
  | some name => "asllvm.module." ++ name

/-- `make_function_name`. -/
def makeFunctionName (function : OwnedFunction) : String :=
  makeModuleName function.moduleName ++ "." ++ function.declaration

/-- `make_vm_entry_thunk_name`. -/
def makeVmEntryThunkName (function : OwnedFunction) : String :=
  makeFunctionName function ++ ".vmthunk"

/-- `make_system_function_name`. -/
def makeSystemFunctionName (function : OwnedFunction) : String :=
  "asllvm.external." ++ function.declaration

/-- The functions `setup_runtime` declares in every module. -/
def standardFunctionNames : List String :=
  ["asllvm.private.alloc", "asllvm.private.free", "asllvm.private.new_script_object",
    "asllvm.private.script_vtable_lookup", "asllvm.private.system_vtable_lookup",
    "asllvm.private.call_object_method", "asllvm.private.panic",
    "asllvm.private.set_internal_exception", "asllvm.private.prepare_system_call",
    "asllvm.private.check_execution_status"]

/-! ### The builder -/

/-- What `get_script_function` or `get_system_function` is asked for. -/
inductive Reference
  | script (function : OwnedFunction)
  | system (function : OwnedFunction)
deriving DecidableEq

/-- What a function of the module was created for. -/
inductive Role
  | reference (r : Reference)
  | vmEntryThunk (function : OwnedFunction)
deriving DecidableEq

/-- The name a function of the module is created with. -/
def Role.name : Role → String
  | .reference (.script function) => makeFunctionName function
  | .reference (.system function) => makeSystemFunctionName function
  | .vmEntryThunk function => makeVmEntryThunkName function

/-- `m_script_functions` and `m_system_functions` are keyed by the id of the function. -/
def Role.isFor : Role → Reference → Bool
  | .reference (.script f), .script g => f.id = g.id
  | .reference (.system f), .system g => f.id = g.id
  | _, _ => false

/-- An `llvm::Function`: its name, whether it still is a member of the module, the functions whose
code was emitted into it, and its calls, each with the function it is meant for. -/
structure LlvmFunction where
  role : Role
  name : String
  attached : Bool
  bodies : List OwnedFunction
  calls : List (Reference × ℕ)
deriving DecidableEq

/-- `PendingFunction`, with the `asJITFunction` to set by its address. -/
structure PendingFunction where
  function : OwnedFunction
  jitFunction : ℕ
deriving DecidableEq

/-- `JitSymbol`. -/
structure JitSymbol where
  scriptFunction : OwnedFunction
  name : String
  entryName : String
  jitFunction : ℕ
deriving DecidableEq

/-- `ModuleBuilder`. An `llvm::Function*` is an index into `functions`, where no function is ever
dropped; `moved` is set once `m_llvm_module` has been moved into the JIT. -/
structure ModuleBuilder where
  scriptModule : Option String
  moved : Bool
  functions : List LlvmFunction
  pendingFunctions : List PendingFunction
  jitFunctions : List JitSymbol
deriving DecidableEq

/-- How `translate_bytecode` and `create_vm_entry_thunk` end: they return, an exception leaves
`translate_bytecode`, or (`aborted`) an assertion ends the process. An index past the end of an array
or a call outside the contract of LLVM is undefined, and counts as `aborted` too: no exception is
thrown, and nothing can be said of what comes after. -/
inductive Completion
  | returned
  | threw
  | aborted
deriving DecidableEq, Repr

/-- What LLVM appends to the name of a new function when the module of the given owner has that name
already: digits, which make it a name that is not taken. -/
structure Naming where
  suffix : Option String → List String → Role → String
  fresh : ∀ owner taken role, role.name ∈ taken →
    role.name ++ "." ++ suffix owner taken role ∉ taken
  digits : ∀ owner taken role, suffix owner taken role ≠ "" ∧
    ∀ c ∈ (suffix owner taken role).toList, c.isDigit = true

/-- The first number that makes a new name. -/
def firstSuffix (taken : List String) (name : String) : String :=
  toString (((List.range (taken.length + 1)).find? fun n =>
    decide (name ++ "." ++ toString (n + 1) ∉ taken)).getD 0 + 1)

theorem firstSuffix_fresh (taken : List String) (name : String) :
    name ++ "." ++ firstSuffix taken name ∉ taken := by
  rw [firstSuffix]
  cases hfind : (List.range (taken.length + 1)).find? fun n =>
      decide (name ++ "." ++ toString (n + 1) ∉ taken) with
  | some n => simpa using List.find?_some hfind
  | none =>
      -- as many names as there are numbers cannot all be taken
      rw [List.find?_eq_none] at hfind
      have hsub : (List.range (taken.length + 1)).map (fun n => name ++ "." ++ toString (n + 1)) ⊆
          taken := by
        intro s hs
        obtain ⟨n, hn, rfl⟩ := List.mem_map.mp hs
        simpa using hfind n hn
      have hnodup : ((List.range (taken.length + 1)).map
          (fun n => name ++ "." ++ toString (n + 1))).Nodup := by
        refine List.Nodup.map ?_ List.nodup_range
        intro m n hmn
        have hdigits : Nat.toDigits 10 (m + 1) = Nat.toDigits 10 (n + 1) := by
          simpa [← String.toList_inj] using hmn
        have hvalue := congrArg (Nat.ofDigitChars 10 · 0) hdigits
        simpa using hvalue
      have hle := (hnodup.subperm hsub).length_le
      simp only [List.length_map, List.length_range] at hle
      omega

theorem firstSuffix_digits (taken : List String) (name : String) :
    firstSuffix taken name ≠ "" ∧ ∀ c ∈ (firstSuffix taken name).toList, c.isDigit = true := by
  constructor
  · simp [firstSuffix]
  · intro c hc
    rw [firstSuffix, Nat.toString_eq_ofList_toDigits, String.toList_ofList] at hc
    exact Nat.isDigit_of_mem_toDigits (by decide) (by decide) hc

/-- A naming with the first number that makes a new name. -/
def Naming.first : Naming where
  suffix _ taken role := firstSuffix taken role.name
  fresh _ taken role _ := firstSuffix_fresh taken role.name
  digits _ taken role := firstSuffix_digits taken role.name

/-- What the builders of one `JitCompiler` share. `asked` are the functions that a translation asks
the module for, in the order in which it does. -/
structure Compiler where
  engine : Engine
  config : JitConfig
  bytecode : OwnedFunction → List BytecodeInstruction
  asked : OwnedFunction → List Reference
  naming : Naming

/-- How a step of the host ends: with a new state, with an exception out of the translation of a
function, in a failed assertion, in `ExitOnError`, or with the use of something LLVM no longer
owns. -/
inductive BuildOutcome (σ : Type)
  | done (s : σ)
  | threw (function : OwnedFunction) (s : σ)
  | aborted
  | exited
  | undefined
deriving DecidableEq

/-- Go on with the new state; an exception leaves what `left` makes of the state it comes with. -/
def BuildOutcome.andThen {σ τ : Type} (o : BuildOutcome σ) (next : σ → BuildOutcome τ) (left : σ → τ) :
    BuildOutcome τ :=
  match o with
  | .done s => next s
  | .threw function s => .threw function (left s)
  | .aborted => .aborted
  | .exited => .exited
  | .undefined => .undefined

/-- The function whose translation an exception came out of. -/
def BuildOutcome.thrower {σ : Type} : BuildOutcome σ → Option OwnedFunction
  | .threw function _ => some function
  | _ => none

theorem BuildOutcome.exists_threw {σ : Type} {o : BuildOutcome σ} {function : OwnedFunction}
    (h : o.thrower = some function) : ∃ s, o = .threw function s := by
  cases o with
  | threw f s => exact ⟨s, by rw [Option.some.inj h]⟩
  | done s => cases h
  | aborted => cases h
  | exited => cases h
  | undefined => cases h

namespace ModuleBuilder

/-- A builder as its constructor leaves it. -/
def new (scriptModule : Option String) : ModuleBuilder := ⟨scriptModule, false, [], [], []⟩

/-- `append`. -/
def append (b : ModuleBuilder) (p : PendingFunction) : ModuleBuilder :=
  { b with pendingFunctions := b.pendingFunctions ++ [p] }

/-- The names that are taken in the module. -/
def takenNames (b : ModuleBuilder) : List String :=
  standardFunctionNames ++ (b.functions.filter (·.attached)).map (·.name)

/-- What the functions were created for, in the order of creation. -/
def roles (b : ModuleBuilder) : List Role := b.functions.map (·.role)

/-- `find(function.GetId())` in `m_script_functions` or `m_system_functions`. -/
def find (b : ModuleBuilder) (r : Reference) : Option ℕ := b.roles.findIdx? (·.isFor r)

/-- Whether a function is a member of the module. -/
def isAttached (b : ModuleBuilder) (i : ℕ) : Bool := (b.functions[i]?).any (·.attached)

/-- `removeFromParent`. -/
def removeFromParent (b : ModuleBuilder) (i : ℕ) : ModuleBuilder :=
  { b with functions := b.functions.modify i ({ · with attached := false }) }

/-- The code of a function is appended to a function of the module. -/
def emitBody (b : ModuleBuilder) (i : ℕ) (function : OwnedFunction)
    (calls : List (Reference × ℕ)) : ModuleBuilder :=
  { b with functions := b.functions.modify i fun fn =>
      { fn with bodies := fn.bodies ++ [function], calls := fn.calls ++ calls } }

/-- Whether a function has been compiled in this module already. -/
def isCompiled (b : ModuleBuilder) (function : OwnedFunction) : Bool :=
  b.jitFunctions.any (·.scriptFunction = function)

end ModuleBuilder

namespace Compiler

variable (C : Compiler)

/-- The name a new function of the module gets. -/
def uniqueName (b : ModuleBuilder) (role : Role) : String :=
  if role.name ∈ b.takenNames then
    role.name ++ "." ++ C.naming.suffix b.scriptModule b.takenNames role
  else role.name

/-- `llvm::Function::Create`, at the end of the module. -/
def create (b : ModuleBuilder) (role : Role) : ModuleBuilder :=
  { b with functions := b.functions ++ [⟨role, C.uniqueName b role, true, [], []⟩] }

/-- `get_script_function` and `get_system_function`: the function of that id, created if this is
the first time. -/
def get (b : ModuleBuilder) (r : Reference) : ℕ × ModuleBuilder :=
  match b.find r with
  | some i => (i, b)
  | none => (b.functions.length, C.create b (.reference r))

/-- The functions a translation asks for, one after the other. -/
def getAll : List Reference → ModuleBuilder → List (Reference × ℕ) × ModuleBuilder
  | [], b => ([], b)
  | r :: rs, b =>
      let (i, b) := C.get b r
      let (calls, b) := getAll rs b
      ((r, i) :: calls, b)

/-- How the translation of a function ends. `get_script_function` asserts that the function is not
a virtual one. Of the errors, only `std::out_of_range` is an exception. -/
def completion (function : OwnedFunction) : Completion :=
  if C.config.assertions && decide (0 ≤ function.vfTableIdx) then .aborted
  else
    match translateBytecode ⟨C.engine, C.config, function.toScriptFunction⟩
        (C.bytecode function) with
    | .ok translation =>
        match createVmEntryThunk translation with
        | .ok _ => .returned
        | .error _ => .aborted
    | .error .outOfRange => .threw
    | .error _ => .aborted

/-- `get_script_function` of the function itself, and the code `translate_bytecode` emits into it, up
to where it stops. -/
def translate (b : ModuleBuilder) (function : OwnedFunction) : ℕ × ModuleBuilder :=
  let (i, b) := C.get b (.script function)
  let (calls, b) := C.getAll (C.asked function) b
  (i, b.emitBody i function calls)

/-- `create_vm_entry_thunk`, whose code calls the function, and the `JitSymbol` of the function. -/
def addEntryThunk (b : ModuleBuilder) (i : ℕ) (p : PendingFunction) : ModuleBuilder :=
  let entryName := C.uniqueName b (.vmEntryThunk p.function)
  let b' := (C.create b (.vmEntryThunk p.function)).emitBody b.functions.length p.function
    [(.script p.function, i)]
  { b' with jitFunctions := b'.jitFunctions ++
    [⟨p.function, makeFunctionName p.function, entryName, p.jitFunction⟩] }

/-- One turn of the loop of `build_functions`, with the handler of `translate_bytecode`: it removes
the function from the module, and leaves the maps as they are. -/
def buildFunction (b : ModuleBuilder) (p : PendingFunction) : BuildOutcome ModuleBuilder :=
  if b.moved then .undefined
  else
    let (i, b) := C.translate b p.function
    match C.completion p.function with
    | .returned => .done (C.addEntryThunk b i p)
    | .threw => if b.isAttached i then .threw p.function (b.removeFromParent i) else .undefined
    | .aborted => .aborted

/-- The loop of `build_functions`: what is compiled already is passed over. -/
def buildPending : List PendingFunction → ModuleBuilder → BuildOutcome ModuleBuilder
  | [], b => .done b
  | p :: ps, b =>
      if b.isCompiled p.function then buildPending ps b
      else
        match C.buildFunction b p with
        | .done b => buildPending ps b
        | o => o

/-- `build_functions`. -/
def buildFunctions (b : ModuleBuilder) : BuildOutcome ModuleBuilder :=
  match C.buildPending b.pendingFunctions b with
  | .done b => .done { b with pendingFunctions := [] }
  | o => o

end Compiler

/-! ### What a build that throws leaves behind -/

/-- No code was emitted twice into one function, and no function of the module calls one that has
been taken out of it. -/
def ModuleBuilder.Consistent (b : ModuleBuilder) : Prop :=
  ∀ fn ∈ b.functions, fn.bodies.length ≤ 1 ∧
    (fn.attached = true → ∀ call ∈ fn.calls, b.isAttached call.2 = true)

namespace Compiler

variable (C : Compiler)

/-- **A clean failure**: what is left of a builder after the translation of a function has
thrown. -/
structure FailedCleanly (b b' : ModuleBuilder) (function : OwnedFunction) : Prop where
  returnsMembers : ∀ g, (C.get b' (.script g)).2.isAttached (C.get b' (.script g)).1 = true
  callsMembers : ∀ fn ∈ b'.functions, fn.attached = true → ∀ call ∈ fn.calls,
    b'.isAttached call.2 = true
  keepsSymbols : b.jitFunctions <+: b'.jitFunctions
  addsSymbols : ∀ p ∈ b.pendingFunctions.takeWhile (·.function ≠ function),
    b'.isCompiled p.function = true
  absent : b'.isCompiled function = false
  pending : ∃ p ∈ b'.pendingFunctions, p.function = function
  later : ∀ ps : List PendingFunction, match C.buildFunctions (ps.foldl ModuleBuilder.append b') with
    | .done b'' => b''.Consistent
    | .threw g b'' => g = function ∧ b''.Consistent
    | .aborted => True
    | .exited | .undefined => False

/-- **A failed translation leaves the builder as it was.** A build that does not throw has nothing
to undo; one whose handler takes a function out of the module that is no member of it is undefined. -/
def LeavesAsItWas (b : ModuleBuilder) : BuildOutcome ModuleBuilder → Prop
  | .threw function b' => C.FailedCleanly b b' function
  | .done _ | .aborted | .exited => True
  | .undefined => False

/-- Whether a build stops at a pending function: it has not been compiled yet, and its translation
does not return. -/
def stopsAt (b : ModuleBuilder) (p : PendingFunction) : Bool :=
  !b.isCompiled p.function && C.completion p.function ≠ .returned

/-- How the first translation ends that a build stops at. -/
def stops (b : ModuleBuilder) : Option Completion :=
  (b.pendingFunctions.find? (C.stopsAt b)).map (C.completion ·.function)

end Compiler

/-! ### What a builder keeps -/

/-- A builder in which functions have been created since, or have changed: they keep their places,
and the lists of pending and of compiled functions are the same. -/
structure ModuleBuilder.Grown (b b' : ModuleBuilder) : Prop where
  roles : b.roles <+: b'.roles
  jitFunctions : b'.jitFunctions = b.jitFunctions
  pendingFunctions : b'.pendingFunctions = b.pendingFunctions
  moved : b'.moved = b.moved
  scriptModule : b'.scriptModule = b.scriptModule
  attached : ∀ i < b.functions.length, b'.isAttached i = true → b.isAttached i = true

namespace ModuleBuilder

variable {b b' b'' : ModuleBuilder}

theorem Grown.refl (b : ModuleBuilder) : b.Grown b :=
  ⟨List.prefix_refl _, rfl, rfl, rfl, rfl, fun _ _ h => h⟩

theorem Grown.length_le (h : b.Grown b') : b.functions.length ≤ b'.functions.length := by
  simpa [ModuleBuilder.roles] using h.roles.length_le

theorem Grown.trans (h : b.Grown b') (h' : b'.Grown b'') : b.Grown b'' :=
  ⟨h.roles.trans h'.roles, h'.jitFunctions.trans h.jitFunctions,
    h'.pendingFunctions.trans h.pendingFunctions, h'.moved.trans h.moved,
    h'.scriptModule.trans h.scriptModule,
    fun i hi hattached =>
      h.attached i hi (h'.attached i (Nat.lt_of_lt_of_le hi h.length_le) hattached)⟩

/-- A function that is found is found again at the same place. -/
theorem Grown.find (h : b.Grown b') {r : Reference} {i : ℕ} (hi : b.find r = some i) :
    b'.find r = some i := by
  obtain ⟨rest, hroles⟩ := h.roles
  rw [ModuleBuilder.find] at hi ⊢
  rw [← hroles, List.findIdx?_append, hi]
  rfl

/-- Changing a function leaves its place and its role, and does not bring it back into the
module. -/
theorem grown_modify (b : ModuleBuilder) (i : ℕ) (change : LlvmFunction → LlvmFunction)
    (hrole : ∀ fn, (change fn).role = fn.role)
    (hattached : ∀ fn, (change fn).attached = true → fn.attached = true) :
    b.Grown { b with functions := b.functions.modify i change } := by
  refine ⟨?_, rfl, rfl, rfl, rfl, ?_⟩
  rotate_left
  · intro k hk
    simp only [isAttached, List.getElem?_modify, List.getElem?_eq_getElem hk]
    by_cases hik : i = k
    · simpa [hik] using hattached _
    · simp [hik]
  have hmap : (b.functions.modify i change).map (·.role) = b.functions.map (·.role) := by
    apply List.ext_getElem?
    intro k
    rw [List.getElem?_map, List.getElem?_map, List.getElem?_modify]
    cases b.functions[k]? with
    | none => rfl
    | some fn =>
        by_cases hik : i = k
        · simp [hik, hrole]
        · simp [hik]
  simp only [roles, hmap, List.prefix_rfl]

theorem grown_emitBody (b : ModuleBuilder) (i : ℕ) (function : OwnedFunction)
    (calls : List (Reference × ℕ)) : b.Grown (b.emitBody i function calls) :=
  b.grown_modify i _ (fun _ => rfl) fun _ h => h

theorem grown_removeFromParent (b : ModuleBuilder) (i : ℕ) : b.Grown (b.removeFromParent i) :=
  b.grown_modify i _ (fun _ => rfl) fun _ h => absurd h Bool.false_ne_true

/-- What has been removed from the module is no member of it. -/
theorem isAttached_removeFromParent (b : ModuleBuilder) (i : ℕ) :
    (b.removeFromParent i).isAttached i = false := by
  rw [isAttached, removeFromParent, List.getElem?_modify]
  cases b.functions[i]? <;> simp

/-- What the loop has compiled stays compiled. -/
theorem isCompiled_of_prefix (h : b.jitFunctions <+: b'.jitFunctions) {function : OwnedFunction}
    (hcompiled : b.isCompiled function = true) : b'.isCompiled function = true := by
  obtain ⟨rest, hrest⟩ := h
  rw [ModuleBuilder.isCompiled] at hcompiled ⊢
  rw [← hrest, List.any_append, hcompiled, Bool.true_or]

end ModuleBuilder

namespace Compiler

variable {C : Compiler} {b b' : ModuleBuilder}

theorem grown_create (C : Compiler) (b : ModuleBuilder) (role : Role) :
    b.Grown (C.create b role) := by
  refine ⟨⟨[role], ?_⟩, rfl, rfl, rfl, rfl, ?_⟩
  · simp [ModuleBuilder.roles, create]
  · intro i hi
    simp [ModuleBuilder.isAttached, create, List.getElem?_append_left hi]

theorem grown_get (C : Compiler) (b : ModuleBuilder) (r : Reference) :
    b.Grown (C.get b r).2 := by
  rw [get]
  cases b.find r with
  | none => exact C.grown_create b _
  | some i => exact .refl b

theorem grown_getAll (C : Compiler) (rs : List Reference) (b : ModuleBuilder) :
    b.Grown (C.getAll rs b).2 := by
  induction rs generalizing b with
  | nil => exact .refl b
  | cons r rs ih => exact (C.grown_get b r).trans (ih _)

/-- **What is asked for is found** from then on. -/
theorem find_get (C : Compiler) (b : ModuleBuilder) (r : Reference) :
    (C.get b r).2.find r = some (C.get b r).1 := by
  cases hr : b.find r with
  | some i =>
      have hget : C.get b r = (i, b) := by rw [get, hr]
      rw [hget]
      exact hr
  | none =>
      have hget : C.get b r = (b.functions.length, C.create b (.reference r)) := by rw [get, hr]
      have hself : (Role.reference r).isFor r = true := by cases r <;> simp [Role.isFor]
      rw [hget, ModuleBuilder.find]
      rw [ModuleBuilder.find] at hr
      simp only [ModuleBuilder.roles, create, List.map_append, List.map_cons, List.map_nil]
      rw [List.findIdx?_append]
      rw [ModuleBuilder.roles] at hr
      simp [hr, hself]

/-- What is translated is in the map of the module. -/
theorem find_translate (C : Compiler) (b : ModuleBuilder) (function : OwnedFunction) :
    (C.translate b function).2.find (.script function) = some (C.translate b function).1 :=
  ((C.grown_getAll _ _).trans (ModuleBuilder.grown_emitBody _ _ _ _)).find (C.find_get b _)

theorem grown_translate (C : Compiler) (b : ModuleBuilder) (function : OwnedFunction) :
    b.Grown (C.translate b function).2 :=
  ((C.grown_get b _).trans (C.grown_getAll _ _)).trans (ModuleBuilder.grown_emitBody _ _ _ _)

/-- **A translation that throws** leaves the function in the map, but not in the module. -/
theorem buildFunction_threw {p : PendingFunction} {function : OwnedFunction}
    (h : C.buildFunction b p = .threw function b') :
    function = p.function ∧ C.completion function = .threw ∧ b.moved = false ∧ b.Grown b' ∧
      ∃ i, b'.find (.script function) = some i ∧ b'.isAttached i = false := by
  have hfind := C.find_translate b p.function
  have hgrown := C.grown_translate b p.function
  rw [buildFunction] at h
  split at h
  · cases h
  · rename_i hmoved
    dsimp only at h
    generalize C.translate b p.function = t at h hfind hgrown
    split at h
    · cases h
    · rename_i hthrew
      split at h
      · injection h with hf hb
        subst hf hb
        have hremoved := t.2.grown_removeFromParent t.1
        exact ⟨rfl, hthrew, by simpa using hmoved, hgrown.trans hremoved, t.1, hremoved.find hfind,
          t.2.isAttached_removeFromParent t.1⟩
      · cases h
    · cases h

theorem addEntryThunk_jitFunctions (C : Compiler) (b : ModuleBuilder) (i : ℕ)
    (p : PendingFunction) :
    (C.addEntryThunk b i p).jitFunctions = b.jitFunctions ++ [⟨p.function,
      makeFunctionName p.function, C.uniqueName b (.vmEntryThunk p.function),
      p.jitFunction⟩] := rfl

theorem buildFunction_returned {p : PendingFunction} (hmoved : b.moved = false)
    (h : C.completion p.function = .returned) :
    C.buildFunction b p =
      .done (C.addEntryThunk (C.translate b p.function).2 (C.translate b p.function).1 p) := by
  rw [buildFunction, hmoved]
  simp [h]

/-- **A function that is built** joins the compiled ones. -/
theorem buildFunction_done {p : PendingFunction} (h : C.buildFunction b p = .done b') :
    b.moved = false ∧ C.completion p.function = .returned ∧
      b' = C.addEntryThunk (C.translate b p.function).2 (C.translate b p.function).1 p := by
  rw [buildFunction] at h
  split at h
  · cases h
  · rename_i hmoved
    dsimp only at h
    split at h
    · rename_i hreturned
      injection h with hb
      exact ⟨by simpa using hmoved, hreturned, hb.symm⟩
    · split at h <;> cases h
    · cases h

theorem buildFunction_done_isCompiled {p : PendingFunction} (h : C.buildFunction b p = .done b')
    (function : OwnedFunction) :
    b'.isCompiled function = (b.isCompiled function || decide (p.function = function)) := by
  obtain ⟨-, -, rfl⟩ := buildFunction_done h
  rw [ModuleBuilder.isCompiled, addEntryThunk_jitFunctions,
    (C.grown_translate b p.function).jitFunctions]
  simp [ModuleBuilder.isCompiled]

theorem buildFunction_done_symbols {p : PendingFunction} (h : C.buildFunction b p = .done b') :
    b.jitFunctions <+: b'.jitFunctions := by
  obtain ⟨-, -, rfl⟩ := buildFunction_done h
  rw [addEntryThunk_jitFunctions, (C.grown_translate b p.function).jitFunctions]
  exact List.prefix_append _ _

theorem buildFunction_done_pending {p : PendingFunction} (h : C.buildFunction b p = .done b') :
    b'.pendingFunctions = b.pendingFunctions ∧ b'.moved = false := by
  obtain ⟨hmoved, -, rfl⟩ := buildFunction_done h
  have hgrown := C.grown_translate b p.function
  exact ⟨hgrown.pendingFunctions, hgrown.moved.trans hmoved⟩

/-- A build stops at the same functions after one more has been compiled. -/
theorem stopsAt_buildFunction {p : PendingFunction} (h : C.buildFunction b p = .done b') :
    C.stopsAt b' = C.stopsAt b := by
  funext q
  have hreturned := (buildFunction_done h).2.1
  rw [stopsAt, stopsAt, buildFunction_done_isCompiled h]
  by_cases hq : p.function = q.function
  · simp [← hq, hreturned]
  · simp [hq]

/-! ### The loop -/

/-- **How the loop ends** is decided by the first translation it stops at. -/
theorem buildPending_outcome (ps : List PendingFunction) (hmoved : b.moved = false) :
    match (ps.find? (C.stopsAt b)).map (C.completion ·.function) with
    | none => ∃ b', C.buildPending ps b = .done b'
    | some .threw =>
        (∃ function b', C.buildPending ps b = .threw function b') ∨
          C.buildPending ps b = .undefined
    | some .aborted => C.buildPending ps b = .aborted
    | some .returned => False := by
  induction ps generalizing b with
  | nil => exact ⟨b, rfl⟩
  | cons p ps ih =>
      rw [List.find?_cons, buildPending]
      by_cases hcompiled : b.isCompiled p.function = true
      · have hpass : C.stopsAt b p = false := by simp [stopsAt, hcompiled]
        rw [hpass, if_pos hcompiled]
        exact ih hmoved
      · rw [if_neg hcompiled]
        cases hend : C.completion p.function with
        | returned =>
            have hpass : C.stopsAt b p = false := by simp [stopsAt, hend]
            have hbuilt := buildFunction_returned hmoved hend
            rw [hpass, hbuilt, ← stopsAt_buildFunction hbuilt]
            exact ih (buildFunction_done_pending hbuilt).2
        | threw =>
            have hstop : C.stopsAt b p = true := by simp [stopsAt, hend, hcompiled]
            have hbuilt : C.buildFunction b p =
                if (C.translate b p.function).2.isAttached (C.translate b p.function).1 then
                  .threw p.function ((C.translate b p.function).2.removeFromParent
                    (C.translate b p.function).1)
                else .undefined := by
              rw [buildFunction, hmoved]
              simp [hend]
            rw [hstop, hbuilt]
            simp only [Option.map_some, hend]
            by_cases hattached :
                (C.translate b p.function).2.isAttached (C.translate b p.function).1 = true
            · rw [if_pos hattached]
              exact .inl ⟨_, _, rfl⟩
            · rw [if_neg hattached]
              exact .inr rfl
        | aborted =>
            have hstop : C.stopsAt b p = true := by simp [stopsAt, hend, hcompiled]
            have hbuilt : C.buildFunction b p = .aborted := by
              rw [buildFunction, hmoved]
              simp [hend]
            rw [hstop, hbuilt]
            simp [hend]

/-- **A loop that throws** has built the functions before the one that throws, and has taken that
one out of the module. -/
theorem buildPending_threw (ps : List PendingFunction) {function : OwnedFunction}
    (h : C.buildPending ps b = .threw function b') :
    b.jitFunctions <+: b'.jitFunctions ∧ b'.pendingFunctions = b.pendingFunctions ∧
      (C.completion function = .threw ∧ b'.moved = false) ∧ b'.isCompiled function = false ∧
      (∀ q ∈ ps.takeWhile (·.function ≠ function), b'.isCompiled q.function = true) ∧
      (∃ q ∈ ps, q.function = function) ∧
      ∃ i, b'.find (.script function) = some i ∧ b'.isAttached i = false := by
  induction ps generalizing b with
  | nil => cases h
  | cons p ps ih =>
      rw [buildPending] at h
      split at h
      · rename_i hcompiled
        obtain ⟨hsymbols, hpending, hthrew, habsent, hbefore, ⟨q, hq, hqf⟩, hfind⟩ := ih h
        have hp := ModuleBuilder.isCompiled_of_prefix hsymbols hcompiled
        refine ⟨hsymbols, hpending, hthrew, habsent, ?_, ⟨q, List.mem_cons_of_mem p hq, hqf⟩, hfind⟩
        intro q hq
        rw [List.takeWhile_cons] at hq
        split at hq
        · rcases List.mem_cons.mp hq with rfl | hq
          · exact hp
          · exact hbefore q hq
        · cases hq
      · cases hbuilt : C.buildFunction b p with
        | done b₁ =>
            rw [hbuilt] at h
            obtain ⟨hsymbols, hpending, hthrew, habsent, hbefore, ⟨q, hq, hqf⟩, hfind⟩ := ih h
            have hown : b₁.isCompiled p.function = true := by
              rw [buildFunction_done_isCompiled hbuilt]
              simp
            have hpre := buildFunction_done_symbols hbuilt
            refine ⟨hpre.trans hsymbols,
              hpending.trans (buildFunction_done_pending hbuilt).1, hthrew, habsent, ?_,
              ⟨q, List.mem_cons_of_mem p hq, hqf⟩, hfind⟩
            intro q hq
            rw [List.takeWhile_cons] at hq
            split at hq
            · rcases List.mem_cons.mp hq with rfl | hq
              · exact ModuleBuilder.isCompiled_of_prefix hsymbols hown
              · exact hbefore q hq
            · cases hq
        | threw g b₁ =>
            rw [hbuilt] at h
            injection h with hf hb
            subst hf hb
            rename_i hcompiled
            obtain ⟨rfl, hthrew, hmoved, hgrown, hfind⟩ := buildFunction_threw hbuilt
            refine ⟨hgrown.jitFunctions ▸ List.prefix_rfl, hgrown.pendingFunctions,
              ⟨hthrew, hgrown.moved.trans hmoved⟩, ?_, ?_,
              ⟨p, List.mem_cons_self, rfl⟩, hfind⟩
            · rw [ModuleBuilder.isCompiled, hgrown.jitFunctions]
              simpa [ModuleBuilder.isCompiled] using hcompiled
            · simp
        | aborted => rw [hbuilt] at h; cases h
        | exited => rw [hbuilt] at h; cases h
        | undefined => rw [hbuilt] at h; cases h

/-- A loop over functions that are compiled already, up to one that throws and has been taken out of
the module before, takes it out a second time. -/
theorem buildPending_detached (ps later : List PendingFunction) {function : OwnedFunction} {i : ℕ}
    (hmoved : b.moved = false) (hthrew : C.completion function = .threw)
    (hfind : b.find (.script function) = some i) (hattached : b.isAttached i = false)
    (habsent : b.isCompiled function = false)
    (hbefore : ∀ q ∈ ps.takeWhile (·.function ≠ function), b.isCompiled q.function = true)
    (hmem : ∃ q ∈ ps, q.function = function) :
    C.buildPending (ps ++ later) b = .undefined := by
  induction ps with
  | nil =>
      obtain ⟨q, hq, -⟩ := hmem
      cases hq
  | cons p ps ih =>
      rw [List.cons_append, buildPending]
      rw [List.takeWhile_cons] at hbefore
      by_cases hp : p.function = function
      · subst hp
        have htranslated := C.grown_translate b p.function
        have hi : i < b.functions.length := by
          simpa [ModuleBuilder.roles] using (List.findIdx?_eq_some_iff_findIdx_eq.mp hfind).1
        have hplace : (C.translate b p.function).1 = i :=
          Option.some.inj ((C.find_translate b p.function).symm.trans (htranslated.find hfind))
        have hstill : (C.translate b p.function).2.isAttached i = false := by
          rw [← Bool.not_eq_true]
          intro hback
          rw [htranslated.attached i hi hback] at hattached
          cases hattached
        have hbuilt : C.buildFunction b p = .undefined := by
          rw [buildFunction, hmoved]
          simp [hthrew, hplace, hstill]
        rw [habsent, hbuilt]
        rfl
      · rw [if_pos (by simpa using hp)] at hbefore
        rw [if_pos (hbefore p List.mem_cons_self)]
        refine ih (fun q hq => hbefore q (List.mem_cons_of_mem p hq)) ?_
        obtain ⟨q, hq, hqf⟩ := hmem
        rcases List.mem_cons.mp hq with rfl | hq
        · exact absurd hqf hp
        · exact ⟨q, hq, hqf⟩

theorem foldl_append (ps : List PendingFunction) (b : ModuleBuilder) :
    ps.foldl ModuleBuilder.append b =
      { b with pendingFunctions := b.pendingFunctions ++ ps } := by
  induction ps generalizing b with
  | nil => simp
  | cons p ps ih => simp [ih, ModuleBuilder.append]

theorem buildFunctions_threw {function : OwnedFunction}
    (h : C.buildFunctions b = .threw function b') :
    C.buildPending b.pendingFunctions b = .threw function b' := by
  rw [buildFunctions] at h
  split at h
  · cases h
  · rename_i hother
    rw [h] at hother ⊢

/-- **A build that throws keeps the symbols**, those of the functions before the one that throws
included, and all that was pending; the one that throws has no symbol. -/
theorem buildFunctions_threw_keeps {function : OwnedFunction}
    (h : C.buildFunctions b = .threw function b') :
    b.jitFunctions <+: b'.jitFunctions ∧
      (∀ p ∈ b.pendingFunctions.takeWhile (·.function ≠ function),
        b'.isCompiled p.function = true) ∧
      b'.isCompiled function = false ∧ b'.pendingFunctions = b.pendingFunctions ∧
      ∃ p ∈ b'.pendingFunctions, p.function = function := by
  obtain ⟨hsymbols, hpending, -, habsent, hbefore, hmem, -⟩ :=
    buildPending_threw _ (buildFunctions_threw h)
  exact ⟨hsymbols, hbefore, habsent, hpending, hpending ▸ hmem⟩

/-- **The next build** of a module that has thrown comes to the same function again, emits code into
it a second time and removes it from a module it is no member of. -/
theorem buildFunctions_again {function : OwnedFunction}
    (h : C.buildFunctions b = .threw function b') (later : List PendingFunction) :
    C.buildFunctions (later.foldl ModuleBuilder.append b') = .undefined := by
  obtain ⟨-, hpending, ⟨hthrew, hmoved⟩, habsent, hbefore, hmem, i, hfind, hattached⟩ :=
    buildPending_threw _ (buildFunctions_threw h)
  rw [foldl_append, buildFunctions, hpending]
  have hloop := @buildPending_detached C
    { b' with pendingFunctions := b.pendingFunctions ++ later } b.pendingFunctions later function i
    hmoved hthrew hfind hattached habsent hbefore hmem
  rw [hloop]

/-- A build with a translation that throws does not leave the builder as it was: what throws is
still found in the map, without being a member of the module. -/
theorem not_leavesAsItWas (hmoved : b.moved = false) (hstops : C.stops b = some .threw) :
    ¬ C.LeavesAsItWas b (C.buildFunctions b) := by
  intro hleaves
  have houtcome := C.buildPending_outcome b.pendingFunctions hmoved
  rw [stops] at hstops
  rw [hstops] at houtcome
  rcases houtcome with ⟨function, b', hthrew⟩ | hundefined
  · have hbuild : C.buildFunctions b = .threw function b' := by rw [buildFunctions, hthrew]
    rw [hbuild] at hleaves
    obtain ⟨-, -, -, -, -, -, i, hfind, hattached⟩ := buildPending_threw _ hthrew
    have hreturned := hleaves.returnsMembers function
    rw [get, hfind] at hreturned
    exact Bool.noConfusion (hattached.symm.trans hreturned)
  · have hbuild : C.buildFunctions b = .undefined := by rw [buildFunctions, hundefined]
    rw [hbuild] at hleaves
    exact hleaves

/-- **A build leaves the builder as it was** exactly if none of its translations throws. -/
theorem leavesAsItWas_iff (C : Compiler) (b : ModuleBuilder) (hmoved : b.moved = false) :
    C.LeavesAsItWas b (C.buildFunctions b) ↔ C.stops b ≠ some .threw := by
  constructor
  · intro hleaves hstops
    exact not_leavesAsItWas hmoved hstops hleaves
  · intro hstops
    have houtcome := C.buildPending_outcome b.pendingFunctions hmoved
    rw [stops] at hstops
    cases hend : (b.pendingFunctions.find? (C.stopsAt b)).map (C.completion ·.function) with
    | none =>
        rw [hend] at houtcome
        obtain ⟨b', hdone⟩ := houtcome
        rw [buildFunctions, hdone]
        trivial
    | some completion =>
        rw [hend] at houtcome hstops
        cases completion with
        | returned => exact houtcome.elim
        | threw => exact absurd rfl hstops
        | aborted =>
            rw [buildFunctions, houtcome]
            trivial

/-! ### A function that reads a parameter it does not have -/

/-- A compiler for the given functions. -/
def ofBytecode (bytecode : OwnedFunction → List BytecodeInstruction)
    (asked : OwnedFunction → List Reference) : Compiler where
  engine := .ofFunctions []
  config := ⟨false, true⟩
  bytecode := bytecode
  asked := asked
  naming := .first

end Compiler

/-- A function of a module, without parameters. -/
def parameterless (id : ℤ) (moduleName : Option String) (head : String) : OwnedFunction where
  toScriptFunction :=
    { ScriptFunction.free id (.primitive .ttVoid) [] 0 with declaration := head ++ "()" }
  moduleName := moduleName
  declaration_ends := ⟨head ++ "(", .inl (by simp [String.append_assoc])⟩

/-- It pushes the first parameter. -/
def parameterBytecode : List BytecodeInstruction :=
  [⟨[0], ⟨.PshV4, 1, 1, by decide⟩, 0⟩, retAt 1]

/-- A compiler whose functions all do. -/
def parameterCompiler : Compiler := .ofBytecode (fun _ => parameterBytecode) fun _ => []

/-- A builder with one such function pending. -/
def parameterBuilder : ModuleBuilder :=
  (ModuleBuilder.new (some "m")).append ⟨parameterless 1 (some "m") "void f", 0⟩

theorem parameterBuilder_stops : parameterCompiler.stops parameterBuilder = some .threw := by
  decide +kernel

theorem parameterBuilder_thrower :
    (parameterCompiler.buildFunctions parameterBuilder).thrower =
      some (parameterless 1 (some "m") "void f") := by
  decide +kernel

/-- **The builder it throws in** is left as it was iff it does not throw. -/
theorem leavesAsItWas_iff_parameter :
    parameterCompiler.LeavesAsItWas parameterBuilder
        (parameterCompiler.buildFunctions parameterBuilder) ↔
      parameterCompiler.stops parameterBuilder ≠ some .threw :=
  Compiler.leavesAsItWas_iff parameterCompiler parameterBuilder rfl

/-- **The builder that has thrown** has no symbol of the function, which is still pending. -/
theorem buildFunctions_threw_keeps_parameter : ∃ b',
    parameterCompiler.buildFunctions parameterBuilder =
        .threw (parameterless 1 (some "m") "void f") b' ∧
      b'.isCompiled (parameterless 1 (some "m") "void f") = false ∧
        b'.pendingFunctions = parameterBuilder.pendingFunctions := by
  obtain ⟨b', hthrew⟩ := BuildOutcome.exists_threw parameterBuilder_thrower
  obtain ⟨-, -, habsent, hpending, -⟩ := Compiler.buildFunctions_threw_keeps hthrew
  exact ⟨b', hthrew, habsent, hpending⟩

/-- **It cannot be built again.** -/
theorem buildFunctions_again_parameter : ∃ b',
    parameterCompiler.buildFunctions parameterBuilder =
        .threw (parameterless 1 (some "m") "void f") b' ∧
      parameterCompiler.buildFunctions b' = .undefined := by
  obtain ⟨b', hthrew⟩ := BuildOutcome.exists_threw parameterBuilder_thrower
  exact ⟨b', hthrew, Compiler.buildFunctions_again hthrew []⟩

/-- **A builder is not always left as it was.** -/
theorem not_leavesAsItWas_parameter :
    ¬ ∀ (C : Compiler) (b : ModuleBuilder), b.moved = false →
      C.LeavesAsItWas b (C.buildFunctions b) := by
  intro h
  exact Compiler.not_leavesAsItWas rfl parameterBuilder_stops
    (h parameterCompiler parameterBuilder rfl)

end Asllvm
