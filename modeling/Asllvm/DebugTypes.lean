import Asllvm.Emit
import Asllvm.Lib.Acyclic
import Asllvm.Lib.Runs

/-!
# Debug Types

`ModuleBuilder::get_debug_type`: the debug type of an AngelScript type id. The types found are kept
in a cache, but the one of a script class is returned without being added to it, so the properties
of a class are visited again wherever the class is met.

The recursion of the source is cut off by fuel, and running out of it is an outcome of its own
(`DebugFault`): the source function returns iff some fuel is enough.

## Main results

* `getDebugType_returns_iff` — it returns iff descent through the properties ends.
* `debugTypes_terminate_iff` — over a finite table of types, that is iff no class can be reached that
  refers back to itself.
-/

open StateExcept Acyclic Relation

namespace Asllvm

/-- A type id (`ModuleDebugInfo::AsTypeIdentifier`). -/
abbrev TypeId : Type := ℤ

/-- `llvm::dwarf::TypeKind`, as far as it is used. -/
inductive DwarfEncoding
  | boolean
  | signed
  | unsigned
  | float
  | address
deriving DecidableEq, Repr

mutual

/-- `llvm::DIType`. -/
inductive DIType
  | unspecified (name : String)
  | basic (name : String) (bits : ℕ) (encoding : DwarfEncoding)
  | pointerToClass (name : String) (size : ℕ) (members : List DIMember) (bits : ℕ)

/-- A member of a class (`createMemberType`), with its size and offset in bits. -/
inductive DIMember
  | mk (name : String) (sizeBits offsetBits : ℕ) (type : DIType)

end

/-- `asCObjectProperty`: `typeId` is `GetTypeIdFromDataType(type)`, `sizeInMemoryBytes` is
`type.GetSizeInMemoryBytes()`. -/
structure ObjectProperty where
  name : String
  typeId : TypeId
  sizeInMemoryBytes : ℕ
  byteOffset : ℕ

/-- `asITypeInfo`, by what is asked of it: whether its flags have `asOBJ_SCRIPT_OBJECT`, whether
they have `asOBJ_REF` or `asOBJ_VALUE`, and, of a script class, its size and properties. -/
structure TypeInfo where
  name : String
  isScriptObject : Bool
  isRefOrValue : Bool
  size : ℕ
  properties : List ObjectProperty

/-- `asTYPEID_INT8`. -/
def asTYPEID_INT8 : TypeId := 2

/-- The debug types of the ids of the primitive types, in the order of the ids from
`asTYPEID_VOID` (`0`) on. -/
def primitiveDebugTypes : List DIType := [
  .unspecified "void",
  .basic "bool" 1 .boolean,
  .basic "int8" 8 .signed,
  .basic "int16" 16 .signed,
  .basic "int" 32 .signed,
  .basic "int64" 64 .signed,
  .basic "uint8" 8 .unsigned,
  .basic "uint16" 16 .unsigned,
  .basic "uint" 32 .unsigned,
  .basic "uint64" 64 .unsigned,
  .basic "float" 32 .float,
  .basic "double" 64 .float]

/-- The switch over the ids of primitive types. -/
def primitiveDebugType : TypeId → Option DIType
  | .ofNat n => primitiveDebugTypes[n]?
  | .negSucc _ => none

/-- A finite table of types, by their ids, which knows every type a property can have. The id of a
handle has an entry of its own, with the type info of its class. -/
structure TypeTable where
  entries : List (TypeId × TypeInfo)
  closed : ∀ entry ∈ entries, ∀ property ∈ entry.2.properties,
    (primitiveDebugType property.typeId).isSome ∨ (entries.lookup property.typeId).isSome

/-- `GetTypeInfoById`. -/
def TypeTable.getTypeInfoById (types : TypeTable) (id : TypeId) : Option TypeInfo :=
  types.entries.lookup id

/-- The ids `GetTypeIdFromDataType` can answer with: those of the primitive types, and those in the
table. -/
def TypeTable.Known (types : TypeTable) (id : TypeId) : Prop :=
  (primitiveDebugType id).isSome ∨ (types.getTypeInfoById id).isSome

/-- How a lookup can fail to return: it is still running when the fuel is used up, or the assertion
that the id is known fails. -/
inductive DebugFault
  | outOfFuel
  | assertion
deriving DecidableEq, Repr

/-- `type_cache`. -/
abbrev TypeCache : Type := TypeId → Option DIType

/-- The monad of the lookup. -/
abbrev DebugM := StateT TypeCache (Except DebugFault)

/-- The `add` lambda: keep the type in the cache. -/
def addDebugType (id : TypeId) (type : DIType) : DebugM DIType := do
  modify fun cache => Function.update cache id (some type)
  pure type

/-- `ModuleBuilder::get_debug_type`. -/
def getDebugType (types : TypeTable) : ℕ → TypeId → DebugM DIType
  | 0, _ => throw .outOfFuel
  | fuel + 1, id => do
      match (← get) id with
      | some type => pure type
      | none =>
          match primitiveDebugType id with
          | some type => addDebugType id type
          | none =>
              match types.getTypeInfoById id with
              | none => throw .assertion
              | some info =>
                  if info.isScriptObject then do
                    let members ← info.properties.mapM fun property => do
                      let type ← getDebugType types fuel property.typeId
                      pure (DIMember.mk property.name (property.sizeInMemoryBytes * 8)
                        (property.byteOffset * 8) type)
                    -- the class type is returned as it is, and not added to the cache
                    pure (.pointerToClass info.name info.size members (asPtrSize * 4 * 8))
                  else if info.isRefOrValue then
                    addDebugType id (.basic info.name (asPtrSize * 4 * 8) .address)
                  else addDebugType id (.unspecified "<unimplemented>")

/-- The type ids of a function that debug information is made of: the returned type, the object,
the parameters, and the local variables. `returnsOnStack` says that it is not `void` and that
`DoesReturnOnStack` holds. -/
structure DebugSignature where
  returnType : TypeId
  returnsOnStack : Bool
  objectType : Option TypeId
  parameters : List TypeId
  locals : List TypeId

/-- The types of the parameter slots, as `allocate_parameter_storage` lays them out. -/
def DebugSignature.slotTypes (function : DebugSignature) : List TypeId :=
  (if function.returnsOnStack then [function.returnType] else []) ++
    function.objectType.toList ++ function.parameters

/-- All types of a signature. -/
def DebugSignature.typeIds (function : DebugSignature) : List TypeId :=
  function.returnType :: function.objectType.toList ++ function.parameters ++ function.locals

/-- `create_function_debug_info`: one lookup for each type in the signature. -/
def createFunctionDebugInfo (types : TypeTable) (fuel : ℕ) (function : DebugSignature) :
    DebugM (List DIType) :=
  (asTYPEID_INT8 :: function.returnType :: function.objectType.toList ++
    function.parameters).mapM (getDebugType types fuel)

/-- `StackFrame::emit_debug_info`: one lookup for each parameter slot, from the last on, and each
local variable. -/
def emitDebugInfo (types : TypeTable) (fuel : ℕ) (function : DebugSignature) :
    DebugM (List DIType) :=
  (function.slotTypes.reverse ++ function.locals).mapM (getDebugType types fuel)

/-- The debug types of a translated function: of its implementation, then of its entry thunk. -/
def debugTypesOf (types : TypeTable) (fuel : ℕ) (function : DebugSignature) : DebugM Unit := do
  let _ ← createFunctionDebugInfo types fuel function
  let _ ← emitDebugInfo types fuel function
  let _ ← createFunctionDebugInfo types fuel function
  pure ()

/-! ### The cache -/

/-- The type of a property is asked for when the type of its class is. -/
def Refers (types : TypeTable) (id id' : TypeId) : Prop :=
  primitiveDebugType id = none ∧ ∃ info, types.getTypeInfoById id = some info ∧
    info.isScriptObject = true ∧ ∃ property ∈ info.properties, property.typeId = id'

/-- The types a module builder has cached, after any lookups that returned. -/
inductive CacheReachable (types : TypeTable) : TypeCache → Prop
  | empty : CacheReachable types fun _ => none
  | lookup {cache cache' : TypeCache} {fuel : ℕ} {id : TypeId} {type : DIType} :
      CacheReachable types cache → Runs (getDebugType types fuel id) cache type cache' →
        CacheReachable types cache'

/-- **No class is ever cached**: only types that refer to no other are. -/
def TypeCache.NoClasses (types : TypeTable) (cache : TypeCache) : Prop :=
  ∀ id type id', cache id = some type → ¬ Refers types id id'

theorem runs_addDebugType {id : TypeId} {type type' : DIType} {cache cache' : TypeCache} :
    Runs (addDebugType id type) cache type' cache' ↔
      type' = type ∧ cache' = Function.update cache id (some type) := by
  simp [addDebugType, and_comm]

/-- Caching a type that refers to no other keeps classes out of the cache. -/
theorem TypeCache.NoClasses.update {types : TypeTable} {cache : TypeCache} {id : TypeId}
    (h : cache.NoClasses types) (hid : ∀ id', ¬ Refers types id id') (type : DIType) :
    TypeCache.NoClasses types (Function.update cache id (some type)) := by
  intro id₁ type₁ id' hcached
  by_cases heq : id₁ = id
  · rw [heq]
    exact hid id'
  · rw [Function.update_of_ne heq] at hcached
    exact h id₁ type₁ id' hcached

/-- The member of a property, as `get_debug_type` makes it. -/
def debugMember (types : TypeTable) (fuel : ℕ) (property : ObjectProperty) : DebugM DIMember := do
  let type ← getDebugType types fuel property.typeId
  pure (DIMember.mk property.name (property.sizeInMemoryBytes * 8) (property.byteOffset * 8) type)

/-- The members of a class. -/
def debugMembers (types : TypeTable) (fuel : ℕ) (info : TypeInfo) : DebugM (List DIMember) :=
  info.properties.mapM (debugMember types fuel)

/-- **What a lookup does**: it is answered from the cache, or adds a type that refers to no other,
or finds the members of a class and leaves what they leave. -/
theorem runs_getDebugType {types : TypeTable} {fuel : ℕ} {id : TypeId} {cache cache' : TypeCache}
    {type : DIType} (h : Runs (getDebugType types fuel id) cache type cache') :
    ∃ n, fuel = n + 1 ∧
      ((cache id = some type ∧ cache' = cache) ∨
        ((∀ id', ¬ Refers types id id') ∧ cache' = Function.update cache id (some type)) ∨
        (cache id = none ∧ ∃ info members, types.getTypeInfoById id = some info ∧
          Runs (debugMembers types n info) cache members cache')) := by
  rcases fuel with _ | n
  · exact absurd h runs_throw
  · refine ⟨n, rfl, ?_⟩
    rw [getDebugType, runs_bind] at h
    obtain ⟨_, _, hget, h⟩ := h
    obtain ⟨rfl, rfl⟩ := runs_get.mp hget
    rename_i cache
    rcases hcached : cache id with _ | cached
    · rcases hprim : primitiveDebugType id with _ | primitive
      · rcases hinfo : types.getTypeInfoById id with _ | info
        · simp only [hcached, hprim, hinfo, runs_throw] at h
        · simp only [hcached, hprim, hinfo] at h
          have hleaf : info.isScriptObject = false → ∀ id', ¬ Refers types id id' := by
            rintro hclass id' ⟨-, info', hinfo', hclass', -⟩
            obtain rfl : info = info' := Option.some.inj (hinfo.symm.trans hinfo')
            exact absurd hclass' (by rw [hclass]; decide)
          by_cases hclass : info.isScriptObject = true
          · rw [if_pos hclass, runs_bind] at h
            obtain ⟨members, cache₁, hmembers, hpure⟩ := h
            obtain ⟨-, rfl⟩ := runs_pure.mp hpure
            exact .inr (.inr ⟨rfl, info, members, rfl, hmembers⟩)
          · rw [if_neg hclass] at h
            have hid := hleaf (Bool.eq_false_of_not_eq_true hclass)
            split at h
            · obtain ⟨rfl, hcache⟩ := runs_addDebugType.mp h
              exact .inr (.inl ⟨hid, hcache⟩)
            · obtain ⟨rfl, hcache⟩ := runs_addDebugType.mp h
              exact .inr (.inl ⟨hid, hcache⟩)
      · simp only [hcached, hprim] at h
        obtain ⟨rfl, hcache⟩ := runs_addDebugType.mp h
        refine .inr (.inl ⟨fun id' href => ?_, hcache⟩)
        exact Option.some_ne_none _ (hprim.symm.trans href.1)
    · simp only [hcached] at h
      obtain ⟨rfl, rfl⟩ := runs_pure.mp h
      exact .inl ⟨rfl, rfl⟩

/-- A member is one lookup. -/
theorem runs_debugMember {types : TypeTable} {fuel : ℕ} {property : ObjectProperty}
    {cache cache' : TypeCache} {member : DIMember} :
    Runs (debugMember types fuel property) cache member cache' ↔
    ∃ type, Runs (getDebugType types fuel property.typeId) cache type cache' ∧
      member = .mk property.name (property.sizeInMemoryBytes * 8) (property.byteOffset * 8)
        type := by
  rw [debugMember, runs_bind]
  constructor
  · rintro ⟨type, _, hlookup, hpure⟩
    obtain ⟨rfl, rfl⟩ := runs_pure.mp hpure
    exact ⟨type, hlookup, rfl⟩
  · rintro ⟨type, hlookup, rfl⟩
    exact ⟨type, cache', hlookup, runs_pure.mpr ⟨rfl, rfl⟩⟩

/-- A lookup keeps classes out of the cache. -/
theorem getDebugType_noClasses {types : TypeTable} {fuel : ℕ} {id : TypeId}
    {cache cache' : TypeCache} {type : DIType} (hcache : cache.NoClasses types)
    (h : Runs (getDebugType types fuel id) cache type cache') : cache'.NoClasses types := by
  induction fuel using Nat.strong_induction_on generalizing id cache cache' type with
  | _ fuel ih =>
      obtain ⟨n, rfl, ⟨-, rfl⟩ | ⟨hleaf, rfl⟩ | ⟨-, info, members, -, hmembers⟩⟩ :=
        runs_getDebugType h
      · exact hcache
      · exact hcache.update hleaf type
      · refine (runs_mapM_of_keeps hmembers hcache ?_).1
        intro property _ cache₁ member cache₂ hmember h₁
        obtain ⟨type₁, hlookup, -⟩ := runs_debugMember.mp hmember
        exact ih n n.lt_succ_self h₁ hlookup

theorem CacheReachable.noClasses {types : TypeTable} {cache : TypeCache}
    (h : CacheReachable types cache) : cache.NoClasses types := by
  induction h with
  | empty => exact fun _ _ _ hcached => absurd hcached (by simp)
  | lookup _ hlookup ih => exact getDebugType_noClasses ih hlookup

/-! ### Termination -/

/-- **A lookup that returns has descended**: from a cache without classes, every type the class
refers to was looked up in its turn. -/
theorem acc_of_getDebugType {types : TypeTable} {fuel : ℕ} {id : TypeId}
    {cache cache' : TypeCache} {type : DIType} (hcache : cache.NoClasses types)
    (h : Runs (getDebugType types fuel id) cache type cache') : Acc (flip (Refers types)) id := by
  induction fuel using Nat.strong_induction_on generalizing id cache cache' type with
  | _ fuel ih =>
      obtain ⟨n, rfl, ⟨hcached, -⟩ | ⟨hleaf, -⟩ | ⟨-, info, members, hinfo, hmembers⟩⟩ :=
        runs_getDebugType h
      · exact .intro _ fun id' href => absurd href (hcache id type id' hcached)
      · exact .intro _ fun id' href => absurd href (hleaf id')
      · refine .intro _ fun id' href => ?_
        obtain ⟨-, info', hinfo', -, property, hmem, rfl⟩ := href
        obtain rfl : info = info' := Option.some.inj (hinfo.symm.trans hinfo')
        have hkeep : ∀ property ∈ info.properties, ∀ cache₁ member cache₂,
            Runs (debugMember types n property) cache₁ member cache₂ →
              cache₁.NoClasses types → cache₂.NoClasses types := by
          intro property _ cache₁ member cache₂ hmember h₁
          obtain ⟨type₁, hlookup, -⟩ := runs_debugMember.mp hmember
          exact getDebugType_noClasses h₁ hlookup
        obtain ⟨cache₁, member, cache₂, hmember, h₁⟩ :=
          (runs_mapM_of_keeps hmembers hcache hkeep).2 property hmem
        obtain ⟨type₁, hlookup, -⟩ := runs_debugMember.mp hmember
        exact ih n n.lt_succ_self h₁ hlookup

/-- A table knows the types its classes refer to. -/
theorem TypeTable.known_of_refers {types : TypeTable} {id id' : TypeId}
    (h : Refers types id id') : types.Known id' := by
  obtain ⟨-, info, hinfo, -, property, hmem, rfl⟩ := h
  obtain ⟨entries₁, entries₂, hentries, -⟩ := List.lookup_eq_some_iff.mp hinfo
  refine types.closed (id, info) ?_ property hmem
  rw [hentries]
  exact List.mem_append_right _ List.mem_cons_self

/-- A lookup returns if its class, if it is one, finds its members. -/
theorem exists_getDebugType_succ {types : TypeTable} {n : ℕ} {id : TypeId} {cache : TypeCache}
    (hknown : types.Known id)
    (hmembers : ∀ info, primitiveDebugType id = none → types.getTypeInfoById id = some info →
      info.isScriptObject = true →
        ∃ members cache', Runs (debugMembers types n info) cache members cache') :
    ∃ type cache', Runs (getDebugType types (n + 1) id) cache type cache' := by
  have hstart : ∀ f : TypeCache → DebugM DIType, (∃ type cache', Runs (f cache) cache type cache') →
      ∃ type cache', Runs (get >>= f) cache type cache' := by
    rintro f ⟨type, cache', h⟩
    exact ⟨type, cache', runs_bind.mpr ⟨cache, cache, runs_get.mpr ⟨rfl, rfl⟩, h⟩⟩
  rw [getDebugType]
  apply hstart
  rcases hcached : cache id with _ | cached
  · rcases hprim : primitiveDebugType id with _ | primitive
    · rcases hinfo : types.getTypeInfoById id with _ | info
      · rw [TypeTable.Known, hprim, hinfo] at hknown
        simp at hknown
      · by_cases hclass : info.isScriptObject = true
        · obtain ⟨members, cache', hrun⟩ := hmembers info hprim hinfo hclass
          simp only [if_pos hclass]
          exact ⟨_, cache', runs_bind.mpr ⟨members, cache', hrun, runs_pure.mpr ⟨rfl, rfl⟩⟩⟩
        · simp only [if_neg hclass]
          split
          · exact ⟨_, _, runs_addDebugType.mpr ⟨rfl, rfl⟩⟩
          · exact ⟨_, _, runs_addDebugType.mpr ⟨rfl, rfl⟩⟩
    · exact ⟨_, _, runs_addDebugType.mpr ⟨rfl, rfl⟩⟩
  · exact ⟨cached, cache, runs_pure.mpr ⟨rfl, rfl⟩⟩

/-- **Descent that ends is followed**: with enough fuel the lookup returns, whatever is cached. -/
theorem exists_getDebugType {types : TypeTable} {id : TypeId}
    (hacc : Acc (flip (Refers types)) id) (hknown : types.Known id) :
    ∃ enough, ∀ fuel, enough ≤ fuel → ∀ cache, ∃ type cache',
      Runs (getDebugType types fuel id) cache type cache' := by
  induction hacc with
  | intro id _ ih =>
      have hproperties : ∀ property ∈ ((types.getTypeInfoById id).map (·.properties)).getD [],
          ∃ enough, ∀ fuel, enough ≤ fuel → Refers types id property.typeId →
            ∀ cache, ∃ member cache',
              Runs (debugMember types fuel property) cache member cache' := by
        intro property _
        by_cases href : Refers types id property.typeId
        · obtain ⟨enough, hrun⟩ := ih property.typeId href (types.known_of_refers href)
          refine ⟨enough, fun fuel hfuel _ cache => ?_⟩
          obtain ⟨type, cache', hlookup⟩ := hrun fuel hfuel cache
          exact ⟨_, cache', runs_debugMember.mpr ⟨type, hlookup, rfl⟩⟩
        · exact ⟨0, fun _ _ href' => absurd href' href⟩
      obtain ⟨enough, hall⟩ := exists_enough hproperties
      refine ⟨enough + 1, fun fuel hfuel cache => ?_⟩
      obtain ⟨n, rfl⟩ : ∃ n, fuel = n + 1 := ⟨fuel - 1, by omega⟩
      refine exists_getDebugType_succ hknown fun info hprim hinfo hclass => ?_
      have hlookups := hall n (by omega)
      rw [hinfo] at hlookups
      exact exists_runs_mapM (fun property hmem =>
        hlookups property hmem ⟨hprim, info, hinfo, hclass, property, hmem, rfl⟩) cache

/-- **A lookup returns iff descent through the properties ends**, from every cache the module
builder can have. -/
theorem getDebugType_returns_iff {types : TypeTable} {id : TypeId} {cache : TypeCache}
    (hcache : cache.NoClasses types) (hknown : types.Known id) :
    (∃ fuel type cache', Runs (getDebugType types fuel id) cache type cache') ↔
      Acc (flip (Refers types)) id := by
  constructor
  · rintro ⟨fuel, type, cache', h⟩
    exact acc_of_getDebugType hcache h
  · intro hacc
    obtain ⟨enough, hall⟩ := exists_getDebugType hacc hknown
    exact ⟨enough, hall enough le_rfl cache⟩

/-- Only the finitely many types of the table refer to others. -/
theorem finite_classes (types : TypeTable) :
    {id | (types.getTypeInfoById id).isSome = true}.Finite := by
  refine (types.entries.map Prod.fst).finite_toSet.subset fun id hid => ?_
  obtain ⟨info, hinfo⟩ := Option.isSome_iff_exists.mp hid
  obtain ⟨entries₁, entries₂, hentries, -⟩ := List.lookup_eq_some_iff.mp hinfo
  refine List.mem_map.mpr ⟨(id, info), ?_, rfl⟩
  rw [hentries]
  exact List.mem_append_right _ List.mem_cons_self

theorem acc_refers_iff {types : TypeTable} {id : TypeId} :
    Acc (flip (Refers types)) id ↔ AcyclicFrom (Refers types) id :=
  acc_iff_acyclic (finite_classes types) fun _ _ ⟨_, _, hinfo, _⟩ => by
    rw [Set.mem_ofPred_eq, hinfo, Option.isSome_some]

/-! ### The lookups of a function -/

/-- Lookups of a list of types that return have descended through each of them. -/
theorem acc_of_mapM_getDebugType {types : TypeTable} {fuel : ℕ} {ids : List TypeId}
    {cache cache' : TypeCache} {result : List DIType} (hcache : cache.NoClasses types)
    (h : Runs (ids.mapM (getDebugType types fuel)) cache result cache') :
    cache'.NoClasses types ∧ ∀ id ∈ ids, Acc (flip (Refers types)) id := by
  obtain ⟨hcache', hall⟩ := runs_mapM_of_keeps h hcache fun id _ cache₁ type cache₂ hlookup h₁ =>
    getDebugType_noClasses h₁ hlookup
  refine ⟨hcache', fun id hid => ?_⟩
  obtain ⟨cache₁, type, cache₂, hlookup, h₁⟩ := hall id hid
  exact acc_of_getDebugType h₁ hlookup

/-- Every type of a signature is looked up. -/
theorem mem_typeIds_iff {function : DebugSignature} {id : TypeId} :
    id ∈ function.typeIds ↔
      id ∈ function.returnType :: function.objectType.toList ++ function.parameters ∨
        id ∈ function.locals := by
  rw [DebugSignature.typeIds, List.mem_append]

theorem mem_typeIds_of_mem_slotTypes {function : DebugSignature} {id : TypeId}
    (h : id ∈ function.slotTypes) : id ∈ function.typeIds := by
  rw [mem_typeIds_iff]
  left
  rw [DebugSignature.slotTypes, List.append_assoc] at h
  rcases List.mem_append.mp h with h | h
  · split at h
    · rw [List.mem_singleton.mp h]
      exact List.mem_append_left _ List.mem_cons_self
    · exact absurd h List.not_mem_nil
  · exact List.mem_cons_of_mem _ h

/-- The lookups of a signature are those of `create_function_debug_info`, of `emit_debug_info`, and
of `create_function_debug_info` again. -/
theorem runs_debugTypesOf {types : TypeTable} {fuel : ℕ} {function : DebugSignature}
    {cache cache' : TypeCache} :
    Runs (debugTypesOf types fuel function) cache () cache' ↔
      ∃ result₁ cache₁, Runs (createFunctionDebugInfo types fuel function) cache result₁ cache₁ ∧
        ∃ result₂ cache₂, Runs (emitDebugInfo types fuel function) cache₁ result₂ cache₂ ∧
          ∃ result₃, Runs (createFunctionDebugInfo types fuel function) cache₂ result₃ cache' := by
  simp [debugTypesOf]

/-- **The debug types of a function are made iff descent ends from each of its types.** -/
theorem debugTypesOf_returns_iff {types : TypeTable} {function : DebugSignature}
    {cache : TypeCache} (hcache : cache.NoClasses types)
    (hknown : ∀ id ∈ function.typeIds, types.Known id) :
    (∃ fuel cache', Runs (debugTypesOf types fuel function) cache () cache') ↔
      ∀ id ∈ function.typeIds, Acc (flip (Refers types)) id := by
  constructor
  · rintro ⟨fuel, cache', h⟩ id hid
    obtain ⟨result₁, cache₁, h₁, result₂, cache₂, h₂, -⟩ := runs_debugTypesOf.mp h
    obtain ⟨hcache₁, hsignature⟩ := acc_of_mapM_getDebugType hcache h₁
    rcases mem_typeIds_iff.mp hid with hid | hid
    · exact hsignature id (List.mem_cons_of_mem _ hid)
    · exact (acc_of_mapM_getDebugType hcache₁ h₂).2 id (List.mem_append_right _ hid)
  · intro hacc
    have hint8 : primitiveDebugType asTYPEID_INT8 = some (.basic "int8" 8 .signed) := rfl
    have hall : ∀ id ∈ asTYPEID_INT8 :: function.typeIds, ∃ enough, ∀ fuel, enough ≤ fuel →
        ∀ cache, ∃ type cache', Runs (getDebugType types fuel id) cache type cache' := by
      intro id hid
      rcases List.mem_cons.mp hid with rfl | hid
      · refine exists_getDebugType (.intro _ fun id' href => ?_) (.inl (by rw [hint8]; rfl))
        exact absurd (hint8.symm.trans href.1) (Option.some_ne_none _)
      · exact exists_getDebugType (hacc id hid) (hknown id hid)
    obtain ⟨fuel, hfuel⟩ := exists_enough hall
    have hsignature : ∀ id ∈ asTYPEID_INT8 :: function.returnType :: function.objectType.toList ++
        function.parameters, ∀ cache, ∃ type cache',
          Runs (getDebugType types fuel id) cache type cache' := by
      intro id hid
      refine hfuel fuel le_rfl id ?_
      rcases List.mem_cons.mp hid with rfl | hid
      · exact List.mem_cons_self
      · exact List.mem_cons_of_mem _ (mem_typeIds_iff.mpr (.inl hid))
    have hvariables : ∀ id ∈ function.slotTypes.reverse ++ function.locals, ∀ cache,
        ∃ type cache', Runs (getDebugType types fuel id) cache type cache' := by
      intro id hid
      refine hfuel fuel le_rfl id (List.mem_cons_of_mem _ ?_)
      rcases List.mem_append.mp hid with hid | hid
      · exact mem_typeIds_of_mem_slotTypes (List.mem_reverse.mp hid)
      · exact mem_typeIds_iff.mpr (.inr hid)
    obtain ⟨result₁, cache₁, h₁⟩ := exists_runs_mapM hsignature cache
    obtain ⟨result₂, cache₂, h₂⟩ := exists_runs_mapM hvariables cache₁
    obtain ⟨result₃, cache₃, h₃⟩ := exists_runs_mapM hsignature cache₂
    exact ⟨fuel, cache₃, runs_debugTypesOf.mpr ⟨result₁, cache₁, h₁, result₂, cache₂, h₂, result₃,
      h₃⟩⟩

/-- **Debug types are made iff no class that is met refers back to itself**: for a type that is
looked up, and for a function that is translated, whatever was looked up before. -/
theorem debugTypes_terminate_iff (types : TypeTable) (cache : TypeCache)
    (hcache : CacheReachable types cache) :
    (∀ id, types.Known id →
      ((∃ fuel type cache', Runs (getDebugType types fuel id) cache type cache') ↔
        AcyclicFrom (Refers types) id)) ∧
    (∀ function : DebugSignature, (∀ id ∈ function.typeIds, types.Known id) →
      ((∃ fuel cache', Runs (debugTypesOf types fuel function) cache () cache') ↔
        ∀ id ∈ function.typeIds, AcyclicFrom (Refers types) id)) := by
  constructor
  · intro id hknown
    rw [getDebugType_returns_iff hcache.noClasses hknown, acc_refers_iff]
  · intro function hknown
    rw [debugTypesOf_returns_iff hcache.noClasses hknown]
    exact forall₂_congr fun id _ => acc_refers_iff

/-- `class Cell { int value; }` and `class Box { Cell@ cell; }`: the ids of `Cell`, of a handle to
it, and of `Box`. -/
def TypeTable.box : TypeTable where
  entries := [(100, ⟨"Cell", true, true, 16, [⟨"value", 4, 4, 8⟩]⟩),
    (101, ⟨"Cell", true, true, 16, [⟨"value", 4, 4, 8⟩]⟩),
    (102, ⟨"Box", true, true, 16, [⟨"cell", 101, 8, 8⟩]⟩)]
  closed := by decide

/-- `class Node { Node@ next; }`: the ids of `Node` and of a handle to it. -/
def TypeTable.node : TypeTable where
  entries := [(100, ⟨"Node", true, true, 16, [⟨"next", 101, 8, 8⟩]⟩),
    (101, ⟨"Node", true, true, 16, [⟨"next", 101, 8, 8⟩]⟩)]
  closed := by decide

/-- No cycle can be reached in a table whose types only refer to types of smaller ids. -/
theorem acyclicFrom_of_lt {types : TypeTable} (h : ∀ id id', Refers types id id' → id' < id)
    (id : TypeId) : AcyclicFrom (Refers types) id := by
  intro id₁ _ hcycle
  have hlt : ∀ id₂, TransGen (Refers types) id₁ id₂ → id₂ < id₁ := by
    intro id₂ htrans
    induction htrans with
    | single href => exact h _ _ href
    | tail _ href ih => exact (h _ _ href).trans ih
  exact lt_irrefl id₁ (hlt id₁ hcycle)

theorem box_refers_lt (id id' : TypeId) (h : Refers .box id id') : id' < id := by
  obtain ⟨-, info, hinfo, -, property, hmem, rfl⟩ := h
  obtain ⟨entries₁, entries₂, hentries, -⟩ := List.lookup_eq_some_iff.mp hinfo
  have hentry : (id, info) ∈ TypeTable.box.entries := by
    rw [hentries]
    exact List.mem_append_right _ List.mem_cons_self
  have hall : ∀ entry ∈ TypeTable.box.entries, ∀ property ∈ entry.2.properties,
      property.typeId < entry.1 := by
    decide
  exact hall (id, info) hentry property hmem

/-- The debug types of `Box`, and of a method of it that takes an `int`, are made. -/
theorem debugTypes_terminate_box :
    (∃ fuel type cache', Runs (getDebugType .box fuel 102) (fun _ => none) type cache') ∧
      ∃ fuel cache', Runs (debugTypesOf .box fuel ⟨0, false, some 102, [4], []⟩) (fun _ => none) ()
        cache' := by
  have h := debugTypes_terminate_iff .box (fun _ => none) .empty
  have hacyclic := acyclicFrom_of_lt box_refers_lt
  refine ⟨(h.1 102 (.inr (by decide))).mpr (hacyclic 102),
    (h.2 ⟨0, false, some 102, [4], []⟩ ?_).mpr fun id _ => hacyclic id⟩
  intro id hid
  have hids : ∀ id ∈ ([0, 102, 4] : List TypeId), (primitiveDebugType id).isSome ∨
      (TypeTable.box.getTypeInfoById id).isSome := by
    decide
  exact hids id hid

/-- **The debug type of a class with a handle to itself is never made.** -/
theorem debugTypes_not_terminate_node :
    ¬ ∃ fuel type cache', Runs (getDebugType .node fuel 100) (fun _ => none) type cache' := by
  have href : ∀ id, id = 100 ∨ id = 101 → Refers .node id 101 := by
    rintro id (rfl | rfl)
    · exact ⟨rfl, _, rfl, rfl, _, List.mem_cons_self, rfl⟩
    · exact ⟨rfl, _, rfl, rfl, _, List.mem_cons_self, rfl⟩
  rw [getDebugType_returns_iff CacheReachable.empty.noClasses (.inr (by decide)), acc_refers_iff]
  intro hacyclic
  exact hacyclic 101 (.single (href 100 (.inl rfl))) (.single (href 101 (.inr rfl)))

end Asllvm
