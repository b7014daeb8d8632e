import Mathlib.Data.Nat.Notation
import Mathlib.Data.Int.Notation
import Asllvm.Lib.Slots

/-!
# The AngelScript Objects the Translator Reads

The translator never owns its input: it walks descriptors of the AngelScript engine
(`asCDataType`, `asCObjectType`, `asCScriptFunction`, `asSSystemFunctionInterface`) and asks
them questions. AngelScript itself is not part of the repository, so a descriptor is
modelled by the answers it gives: one field per query the translator makes. What
AngelScript documents about those answers for the types the translator supports is collected
in `DataType.Supported`; no definition of this module computes an answer itself.

A C++ pointer to a descriptor becomes the descriptor, a nullable pointer an `Option`.
-/

namespace Asllvm

/-- `AS_PTR_SIZE`: the number of dwords of a pointer on the supported target (x86-64). -/
abbrev asPtrSize : ℕ := 2

/-- The tokens `asCDataType::GetTokenType` answers with, as far as `to_llvm_type` and the
return type tests tell them apart. -/
inductive TokenType
  | ttVoid
  | ttBool
  | ttInt8
  | ttUInt8
  | ttInt16
  | ttUInt16
  | ttInt
  | ttUInt
  | ttInt64
  | ttUInt64
  | ttFloat
  | ttDouble
  | ttOther
deriving DecidableEq, Repr

/-- The documented size of a primitive in dwords: every primitive below 64 bits takes one
full dword of the stack. -/
def TokenType.sizeInDWords : TokenType → ℕ
  | .ttVoid => 0
  | .ttInt64 | .ttUInt64 | .ttDouble => 2
  | _ => 1

/-- `asCDataType`, by its queries: `typeInfo` is the type id behind `GetTypeInfo()`, the
other fields are `GetTokenType`, `IsPrimitive`, `IsReference`, `IsObjectHandle`, `IsObject`
and `GetSizeOnStackDWords`. -/
structure DataType where
  tokenType : TokenType
  isPrimitive : Bool
  isReference : Bool
  isObjectHandle : Bool
  isObject : Bool
  typeInfo : Option ℤ
  sizeOnStackDWords : ℕ
deriving DecidableEq, Repr

/-- What AngelScript documents about a type that `to_llvm_type` supports and that can occupy
a stack slot: a primitive passed by value takes the dwords of its token, everything else is
a pointer. -/
structure DataType.Supported (t : DataType) : Prop where
  token : t.isPrimitive = true → t.tokenType ≠ .ttOther ∧
    (t.isReference = false → t.tokenType ≠ .ttVoid)
  object : t.isPrimitive = false → t.typeInfo.isSome = true ∧
    (t.isReference || t.isObjectHandle || t.isObject) = true
  size : t.sizeOnStackDWords =
    if t.isPrimitive = true ∧ t.isReference = false then t.tokenType.sizeInDWords
    else asPtrSize

/-- A supported type takes at least one dword of the stack. -/
theorem DataType.Supported.size_pos {t : DataType} (h : t.Supported) :
    0 < t.sizeOnStackDWords := by
  rw [h.size]
  split
  · rename_i hprim
    have hvoid := (h.token hprim.1).2 hprim.2
    cases htok : t.tokenType <;> simp_all [TokenType.sizeInDWords]
  · decide

/-- A primitive passed by value. -/
def DataType.primitive (token : TokenType) : DataType :=
  ⟨token, true, false, false, false, none, token.sizeInDWords⟩

/-- An object, or a handle to one, which takes the dwords of a pointer. -/
def DataType.objectOf (typeId : ℤ) : DataType :=
  ⟨.ttOther, false, false, false, true, some typeId, asPtrSize⟩

theorem DataType.primitive_supported {token : TokenType} (hvoid : token ≠ .ttVoid)
    (hother : token ≠ .ttOther) : (DataType.primitive token).Supported :=
  ⟨fun _ => ⟨hother, fun _ => hvoid⟩, nofun, by simp [primitive]⟩

theorem DataType.objectOf_supported (typeId : ℤ) : (DataType.objectOf typeId).Supported :=
  ⟨nofun, fun _ => ⟨rfl, rfl⟩, rfl⟩

/-- An implementation found by `GetMethodByIndex(i, false)`, as `get_nonvirtual_match`
inspects it: its function id, virtual table index and declaration. -/
structure Method where
  id : ℤ
  vfTableIdx : ℤ
  declaration : String
deriving DecidableEq, Repr

/-- `asSTypeBehaviour`: the function ids of the behaviours the translator calls, `0` when
the type has none. -/
structure TypeBehaviour where
  addref : ℤ
  release : ℤ
  destruct : ℤ
deriving DecidableEq, Repr

/-- `asCObjectType`: its id, the flags the translator tests, its size in bytes, its
behaviours and its methods in declaration order. -/
structure ObjectType where
  typeId : ℤ
  isScriptObject : Bool
  isRef : Bool
  isNoCount : Bool
  isNoInherit : Bool
  isListPattern : Bool
  size : ℕ
  beh : TypeBehaviour
  methods : List Method
deriving DecidableEq, Repr

/-- `asEFuncType`, as far as call emission tells the kinds apart. -/
inductive FuncType
  | asFUNC_SCRIPT
  | asFUNC_VIRTUAL
  | asFUNC_DELEGATE
  | asFUNC_SYSTEM
  | asFUNC_OTHER
deriving DecidableEq, Repr

/-- The internal calling conventions `emit_system_call` distinguishes; `ICC_OTHER` stands
for the ones its switch does not list. -/
inductive CallConv
  | ICC_CDECL
  | ICC_THISCALL
  | ICC_VIRTUAL_THISCALL
  | ICC_CDECL_OBJFIRST
  | ICC_CDECL_OBJLAST
  | ICC_OTHER
deriving DecidableEq, Repr

/-- `asSSystemFunctionInterface`: the convention, whether the host returns through memory,
and the native address (the offset into the host's vtable for a virtual method). -/
structure SystemFunctionInterface where
  callConv : CallConv
  hostReturnInMemory : Bool
  func : BitVec 64
deriving DecidableEq, Repr

/-- The part of `scriptData` the stack frame is laid out by. The compiler of AngelScript
computes `stackNeeded` as the variable space plus the largest temporary stack. -/
structure ScriptData where
  variableSpace : ℕ
  stackNeeded : ℕ
  variableSpace_le : variableSpace ≤ stackNeeded
deriving DecidableEq, Repr

/-- `asCScriptFunction`: `declaration` is `GetDeclaration(true, true, false)`,
`doesReturnOnStack` is `DoesReturnOnStack()`, `spaceNeededForArguments` is
`GetSpaceNeededForArguments()`. `scriptData` is only read of script functions, `sysFuncIntf`
only of system functions. -/
structure ScriptFunction where
  id : ℤ
  funcType : FuncType
  declaration : String
  returnType : DataType
  doesReturnOnStack : Bool
  objectType : Option ObjectType
  parameterTypes : List DataType
  vfTableIdx : ℤ
  isFinal : Bool
  spaceNeededForArguments : ℤ
  scriptData : ScriptData
  sysFuncIntf : SystemFunctionInterface
deriving DecidableEq, Repr

/-- `asCScriptEngine`, by its lookups: functions by id (`GetFunctionById`, `scriptFunctions[]`
and `GetScriptFunction` are the same table), the object type a pointer operand of the
bytecode refers to, and the data type of a type id. -/
structure Engine where
  getFunctionById : ℤ → Option ScriptFunction
  objectTypeAt : BitVec 64 → ObjectType
  getDataTypeFromTypeId : ℤ → DataType

/-- A free script function with the given signature that only needs its variables. -/
def ScriptFunction.free (id : ℤ) (returnType : DataType) (parameterTypes : List DataType)
    (variableSpace : ℕ) : ScriptFunction where
  id := id
  funcType := .asFUNC_SCRIPT
  declaration := ""
  returnType := returnType
  doesReturnOnStack := false
  objectType := none
  parameterTypes := parameterTypes
  vfTableIdx := -1
  isFinal := false
  spaceNeededForArguments := Slots.total DataType.sizeOnStackDWords parameterTypes
  scriptData := ⟨variableSpace, variableSpace, Nat.le_refl _⟩
  sysFuncIntf := ⟨.ICC_OTHER, false, 0⟩

/-- A class with no behaviours and no methods. -/
def ObjectType.bare (typeId : ℤ) : ObjectType :=
  ⟨typeId, true, false, false, false, false, 0, ⟨0, 0, 0⟩, []⟩

/-- An engine that knows the given functions, and in which every type id is that of an object. -/
def Engine.ofFunctions (functions : List ScriptFunction) : Engine where
  getFunctionById id := functions.find? (·.id = id)
  objectTypeAt _ := .bare 0
  getDataTypeFromTypeId typeId := .objectOf typeId

end Asllvm
