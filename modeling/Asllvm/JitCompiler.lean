import Asllvm.ModuleBuilder

/-!
# The Compiler

`JitCompiler`, with the `ModuleMap` of its builders and the `LLJIT` the modules are handed to.
Functions are submitted one by one; `build_modules` translates what is pending, links the native
functions, hands every module to the JIT, and last tells AngelScript where the code is.

* `Jit` — the modules that LLVM has taken over and the symbols of the main `JITDylib`.
* `Compiler.build`, `JitCompiler.link` — what is done with one builder.
* `JitCompiler.jitCompile`, `Compiler.buildModules` — the two calls of the host. The builders of the
  modules are in an `unordered_map`: they are visited in some order.
-/

namespace Asllvm

/-! ### The symbols of the JIT -/

/-- What a symbol is bound to: the function of a module the JIT has taken over, the native code of a
system function, or a function of the runtime. -/
inductive Definition
  | code (module index : ℕ)
  | native (func : BitVec 64)
  | runtime (name : String)
deriving DecidableEq, Repr

/-- `LLJIT`: the modules it owns, and the symbols of the main `JITDylib`. -/
structure Jit where
  modules : List (List LlvmFunction)
  symbols : List (String × Definition)
deriving DecidableEq

/-- A function that has code, as a member of its module. -/
def LlvmFunction.isDefined (fn : LlvmFunction) : Bool := fn.attached && !fn.bodies.isEmpty

/-- The functions of the runtime that `link_symbols` defines. -/
def runtimeNames : List String := standardFunctionNames ++ ["fmodf", "fmod"]

namespace Jit

/-- `lookup`. -/
def lookup (jit : Jit) (name : String) : Option Definition := jit.symbols.lookup name

/-- The functions of a module that the host defines, by the names they have there. -/
def systemSymbols (functions : List LlvmFunction) : List (String × Definition) :=
  functions.filterMap fun fn =>
    match fn.role with
    | .reference (.system f) => some (fn.name, .native f.sysFuncIntf.func)
    | _ => none

/-- `link_symbols`: a name that is defined already keeps its definition. -/
def linkSymbols (jit : Jit) (functions : List LlvmFunction) : Jit :=
  let wanted := systemSymbols functions ++ runtimeNames.map fun name => (name, .runtime name)
  { jit with symbols := jit.symbols ++ wanted.filter fun s => (jit.lookup s.1).isNone }

/-- The symbols a module defines once it is the one of the given number. -/
def moduleSymbols (module : ℕ) (functions : List LlvmFunction) : List (String × Definition) :=
  functions.zipIdx.filterMap fun (fn, i) =>
    if fn.isDefined then some (fn.name, .code module i) else none

/-- `addIRModule`: the JIT takes the module over, unless it defines a name that is defined. -/
def addIRModule (jit : Jit) (functions : List LlvmFunction) : Option Jit :=
  let new := moduleSymbols jit.modules.length functions
  if new.all fun s => (jit.lookup s.1).isNone then
    some ⟨jit.modules ++ [functions], jit.symbols ++ new⟩
  else none

/-- A function of a module. -/
def function? (jit : Jit) (module index : ℕ) : Option LlvmFunction := do
  (← jit.modules[module]?)[index]?

/-- Where a use of a function leads: to its code in the same module, or to what its name is bound
to. -/
def resolve (jit : Jit) (module index : ℕ) : Option Definition := do
  let fn ← jit.function? module index
  if fn.isDefined then some (.code module index) else jit.lookup fn.name

end Jit

/-! ### The compiler -/

/-- `JitCompiler`, and what it has told the host: the `asJITFunction`s by their addresses, and the
user data of the functions by their ids. -/
structure JitCompiler where
  sharedModuleBuilder : ModuleBuilder
  map : List (String × ModuleBuilder)
  jit : Jit
  outputs : ℕ → Option Definition
  userData : ℤ → Option Definition

namespace JitCompiler

/-- A compiler as its constructor leaves it. -/
def new : JitCompiler := ⟨.new none, [], ⟨[], []⟩, fun _ => none, fun _ => none⟩

/-- `m_module_map[module].append(function)`, of a module that has a name: its builder is created if
there is none. -/
def appendTo (name : String) (p : PendingFunction) :
    List (String × ModuleBuilder) → List (String × ModuleBuilder)
  | [] => [(name, (ModuleBuilder.new (some name)).append p)]
  | (n, b) :: map => if n = name then (n, b.append p) :: map else (n, b) :: appendTo name p map

/-- `jit_compile`. -/
def jitCompile (s : JitCompiler) (p : PendingFunction) : JitCompiler :=
  match p.function.moduleName with
  | none => { s with sharedModuleBuilder := s.sharedModuleBuilder.append p }
  | some name => { s with map := appendTo name p s.map }

/-- The functions that are pending in any builder. -/
def pending (s : JitCompiler) : List PendingFunction :=
  s.sharedModuleBuilder.pendingFunctions ++ s.map.flatMap (·.2.pendingFunctions)

/-- One turn of `link`: AngelScript is told the address of a function, and the host that of its
thunk. -/
def linkSymbol (s : JitCompiler) (symbol : JitSymbol) : Option JitCompiler := do
  let function ← s.jit.lookup symbol.name
  let entry ← s.jit.lookup symbol.entryName
  some { s with
    userData := Function.update s.userData symbol.scriptFunction.id (some function)
    outputs := Function.update s.outputs symbol.jitFunction (some entry) }

/-- `ModuleBuilder::link`; a name that cannot be found ends the process. -/
def link (s : JitCompiler) (b : ModuleBuilder) : Option JitCompiler :=
  b.jitFunctions.foldlM linkSymbol s

end JitCompiler

namespace Compiler

variable (C : Compiler)

/-- `ModuleBuilder::build`, after `build_functions`: the JIT takes over the module, which is gone if
there has been a build before. -/
def addModule (jit : Jit) (b : ModuleBuilder) : BuildOutcome (Jit × ModuleBuilder) :=
  if b.moved then .undefined
  else
    match (jit.linkSymbols b.functions).addIRModule b.functions with
    | some jit => .done (jit, { b with moved := true })
    | none => .exited

/-- `ModuleBuilder::build`. -/
def build (jit : Jit) (b : ModuleBuilder) : BuildOutcome (Jit × ModuleBuilder) :=
  (C.buildFunctions b).andThen (addModule jit) fun b => (jit, b)

/-- The first loop of `build_modules`: the builders are built one after the other. -/
def buildAll : List (String × ModuleBuilder) → Jit →
    BuildOutcome (Jit × List (String × ModuleBuilder))
  | [], jit => .done (jit, [])
  | (name, b) :: map, jit =>
      (C.build jit b).andThen
        (fun (jit, b) =>
          (buildAll map jit).andThen (fun (jit, map) => .done (jit, (name, b) :: map))
            fun (jit, map) => (jit, (name, b) :: map))
        fun (jit, b) => (jit, (name, b) :: map)

/-- The second loop of `build_modules`, and the end of it. -/
def linkAll (s : JitCompiler) : BuildOutcome JitCompiler :=
  match (s.sharedModuleBuilder :: s.map.map (·.2)).foldlM JitCompiler.link s with
  | some s => .done { s with map := [] }
  | none => .exited

/-- `build_modules`, with the builders of the modules visited in the given order. An exception out
of a build leaves the rest as it is. -/
def buildModules (order : List (String × ModuleBuilder)) (s : JitCompiler) :
    BuildOutcome JitCompiler :=
  (C.build s.jit s.sharedModuleBuilder).andThen
    (fun (jit, shared) =>
      (C.buildAll order jit).andThen
        (fun (jit, map) =>
          linkAll { s with sharedModuleBuilder := shared, map := map, jit := jit })
        fun (jit, map) => { s with sharedModuleBuilder := shared, map := map, jit := jit })
    fun (jit, shared) => { s with sharedModuleBuilder := shared, jit := jit }

end Compiler

end Asllvm
