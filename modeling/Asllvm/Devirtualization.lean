import Asllvm.NullChecks
import Asllvm.Lib.Splits

/-!
# Devirtualization

Where a virtual method cannot be overridden, `resolve_virtual_script_function` calls the method that
`get_nonvirtual_match` finds by its declaration in the class that declares it. Otherwise the code asks
`script_vtable_lookup` for the entry of the virtual function table of the receiver.

* `ScriptClass` — a class with its methods and its virtual function table.
* `Lineage` — a class with the classes it is derived from, as AngelScript builds them.
* `scriptVtableLookup` — the entry of the table of a receiver.

## Conventions

AngelScript keeps two functions for a method: the virtual one, which callers refer to and which has
the index into the table, and the implementation in the table. A derived class copies both lists; an
override only puts another implementation into its place.

## Main results

* `Lineage.entry_of_final` — the entry of a final method is the same in all derived classes.
* `Lineage.declarations_nodup` — no two entries of a table have the same declaration.
* `nonvirtualMatch_eq_lookup` — **the method that is found by its declaration is the one the lookup
  selects**, for any receiver.
-/

open StateExcept

namespace Asllvm

/-! ### Declarations -/

/-- The parts of `GetDeclaration(true, true, false)` of a method: the type it returns, the name of its
class with the namespace, its own name, and the parameters. -/
structure MethodText where
  returnType : String
  className : String
  name : String
  parameters : String
  noParenthesis : '(' ∉ returnType.toList ++ className.toList ++ name.toList
  noSpace : ' ' ∉ className.toList ++ name.toList
  noColon : ':' ∉ name.toList

/-- The declaration itself. -/
def MethodText.text (m : MethodText) : String :=
  m.returnType ++ " " ++ m.className ++ "::" ++ m.name ++ "(" ++ m.parameters

/-- **A declaration carries the name of the class.** -/
theorem MethodText.className_eq {m m' : MethodText} (h : m.text = m'.text) :
    m.className = m'.className := by
  have hsplit : ∀ k : MethodText, k.text.toList = (k.returnType.toList ++ ' ' ::
      (k.className.toList ++ ':' :: ':' :: k.name.toList)) ++ '(' :: k.parameters.toList := by
    intro k
    simp [MethodText.text, String.toList_append]
  have hparenthesis : ∀ k : MethodText, '(' ∉ k.returnType.toList ++ ' ' ::
      (k.className.toList ++ ':' :: ':' :: k.name.toList) := by
    intro k hmem
    refine k.noParenthesis ?_
    simpa [or_assoc] using hmem
  have hspace : ∀ k : MethodText, ' ' ∉ k.className.toList ++ ':' :: ':' :: k.name.toList := by
    intro k hmem
    refine k.noSpace ?_
    simpa using hmem
  -- in front of the parameters, behind the last space, in front of the last colons
  have hlist := congrArg String.toList h
  rw [hsplit, hsplit] at hlist
  obtain ⟨hfront, -⟩ := Splits.append_cons_inj_first (hparenthesis m) (hparenthesis m') hlist
  obtain ⟨-, hbehind⟩ := Splits.append_cons_inj_last (hspace m) (hspace m') hfront
  rw [List.append_cons, List.append_cons m'.className.toList] at hbehind
  obtain ⟨hname, -⟩ := Splits.append_cons_inj_last m.noColon m'.noColon hbehind
  exact String.toList_inj.mp (List.append_cancel_right hname)

/-! ### Classes -/

/-- What `get_nonvirtual_match` sees of an implementation. -/
def ScriptFunction.asMethod (function : ScriptFunction) : Method :=
  ⟨function.id, function.vfTableIdx, function.declaration⟩

/-- `GetMethodByIndex(index, false)`: the entry of the table for a virtual method. -/
def getMethodByIndex (methods virtualFunctionTable : List ScriptFunction) (index : ℕ) :
    Option ScriptFunction := do
  let func ← methods[index]?
  if func.funcType = .asFUNC_VIRTUAL then virtualFunctionTable[func.vfTableIdx.toNat]?
  else some func

/-- **A script class**: its virtual methods, in the order of its virtual function table. -/
structure ScriptClass where
  name : String
  objectType : ObjectType
  methods : List ScriptFunction
  virtualFunctionTable : List ScriptFunction
  length_eq : methods.length = virtualFunctionTable.length
  virtual : ∀ (i : ℕ) (stub : ScriptFunction), methods[i]? = some stub →
    stub.funcType = .asFUNC_VIRTUAL ∧ stub.vfTableIdx = i
  listed : ∀ i : ℕ, objectType.methods[i]? =
    (getMethodByIndex methods virtualFunctionTable i).map (·.asMethod)

namespace ScriptClass

/-- A function that a class declares: its `objectType` is that class, and its declaration carries the
name of the class. -/
structure Declares (c : ScriptClass) (function : ScriptFunction) : Prop where
  objectType : function.objectType = some c.objectType
  text : ∃ m : MethodText, m.className = c.name ∧ function.declaration = m.text

/-- **Where the entries of a table come from**: they are inherited, override a method of the base that
is not final, or belong to a method that the class introduces. -/
inductive Entry (c : ScriptClass) (base : Option ScriptClass) (i : ℕ)
    (stub implementation : ScriptFunction) : Prop
  | inherited {b : ScriptClass} (hb : base = some b) (hstub : b.methods[i]? = some stub)
      (himplementation : b.virtualFunctionTable[i]? = some implementation)
  | overridden {b : ScriptClass} (hb : base = some b) (hstub : b.methods[i]? = some stub)
      (hfinal : stub.isFinal = false) (hdeclares : c.Declares implementation)
  | introduced (hnew : ∀ b, base = some b → b.methods.length ≤ i) (hstub : c.Declares stub)
      (hdeclares : c.Declares implementation) (hsame : stub.declaration = implementation.declaration)

/-- **A class that is derived from a base**, if it has one. -/
structure DerivesFrom (c : ScriptClass) (base : Option ScriptClass) : Prop where
  inheritable : ∀ b, base = some b → b.objectType.isNoInherit = false
  copies : ∀ b, base = some b → b.methods <+: c.methods
  entry : ∀ (i : ℕ) (stub implementation : ScriptFunction), c.methods[i]? = some stub →
    c.virtualFunctionTable[i]? = some implementation → c.Entry base i stub implementation
  distinct : ∀ (i j : ℕ) (f g : ScriptFunction), c.virtualFunctionTable[i]? = some f →
    c.virtualFunctionTable[j]? = some g → c.Declares f → c.Declares g →
      f.declaration = g.declaration → i = j

end ScriptClass

/-- **A class and its ancestors**, the nearest one first. Different classes have different names and
type ids. -/
inductive Lineage : ScriptClass → List ScriptClass → Prop
  | root {c : ScriptClass} (h : c.DerivesFrom none) : Lineage c []
  | derived {c b : ScriptClass} {ancestors : List ScriptClass} (hb : Lineage b ancestors)
      (h : c.DerivesFrom (some b)) (hdifferent : ∀ a ∈ b :: ancestors,
        a.name ≠ c.name ∧ a.objectType.typeId ≠ c.objectType.typeId) : Lineage c (b :: ancestors)

/-- `script_vtable_lookup`, of a receiver of the given class: the entry whose user data it returns. -/
def scriptVtableLookup (receiver : ScriptClass) (function : ScriptFunction) :
    Option ScriptFunction :=
  if function.vfTableIdx < 0 then none
  else receiver.virtualFunctionTable[function.vfTableIdx.toNat]?

/-! ### Tables -/

namespace ScriptClass

variable {c : ScriptClass} {base : Option ScriptClass} {i : ℕ} {stub implementation : ScriptFunction}

theorem getMethodByIndex_eq (c : ScriptClass) (i : ℕ) :
    getMethodByIndex c.methods c.virtualFunctionTable i = c.virtualFunctionTable[i]? := by
  rw [getMethodByIndex]
  cases hstub : c.methods[i]? with
  | none =>
      rw [List.getElem?_eq_none_iff, c.length_eq] at hstub
      rw [List.getElem?_eq_none hstub]
      rfl
  | some stub =>
      obtain ⟨hvirtual, hindex⟩ := c.virtual i stub hstub
      simp [hvirtual, hindex]

/-- The methods that are looked through are the entries of the table. -/
theorem methods_eq (c : ScriptClass) :
    c.objectType.methods = c.virtualFunctionTable.map (·.asMethod) := by
  apply List.ext_getElem?
  intro i
  rw [c.listed, c.getMethodByIndex_eq, List.getElem?_map]

/-- A virtual method has an entry. -/
theorem exists_entry (hstub : c.methods[i]? = some stub) :
    ∃ implementation, c.virtualFunctionTable[i]? = some implementation := by
  obtain ⟨hi, -⟩ := List.getElem?_eq_some_iff.mp hstub
  exact ⟨_, List.getElem?_eq_getElem (c.length_eq ▸ hi)⟩

/-- An entry belongs to a virtual method. -/
theorem exists_stub (himplementation : c.virtualFunctionTable[i]? = some implementation) :
    ∃ stub, c.methods[i]? = some stub := by
  obtain ⟨hi, -⟩ := List.getElem?_eq_some_iff.mp himplementation
  exact ⟨_, List.getElem?_eq_getElem (c.length_eq.symm ▸ hi)⟩

/-- An entry is one of the base, or an implementation of the class itself. -/
theorem Entry.inherited_or_declared (h : c.Entry base i stub implementation) :
    (∃ b, base = some b ∧ b.virtualFunctionTable[i]? = some implementation) ∨
      c.Declares implementation := by
  cases h with
  | inherited hb _ himplementation => exact .inl ⟨_, hb, himplementation⟩
  | overridden _ _ _ hdeclares => exact .inr hdeclares
  | introduced _ _ hdeclares _ => exact .inr hdeclares

/-- Functions that two classes declare have different declarations, if the names are different. -/
theorem Declares.declaration_ne {a : ScriptClass} {f g : ScriptFunction} (hf : a.Declares f)
    (hg : c.Declares g) (hname : a.name ≠ c.name) : f.declaration ≠ g.declaration := by
  obtain ⟨m, hm, hfm⟩ := hf.text
  obtain ⟨m', hm', hgm'⟩ := hg.text
  intro h
  rw [hfm, hgm'] at h
  exact hname (hm.symm.trans ((MethodText.className_eq h).trans hm'))

end ScriptClass

namespace Lineage

variable {c t : ScriptClass} {ancestors : List ScriptClass} {i : ℕ} {stub : ScriptFunction}

/-- Every entry of a table is declared by the class or by one of its ancestors. -/
theorem exists_declares (h : Lineage c ancestors) {f : ScriptFunction}
    (hf : c.virtualFunctionTable[i]? = some f) : ∃ a ∈ c :: ancestors, a.Declares f := by
  induction h with
  | @root c h =>
      obtain ⟨stub, hstub⟩ := c.exists_stub hf
      rcases (h.entry i stub f hstub hf).inherited_or_declared with ⟨b, hb, -⟩ | hdeclares
      · cases hb
      · exact ⟨c, List.mem_cons_self, hdeclares⟩
  | @derived c b ancestors hb h hdifferent ih =>
      obtain ⟨stub, hstub⟩ := c.exists_stub hf
      rcases (h.entry i stub f hstub hf).inherited_or_declared with ⟨b', hb', hf'⟩ | hdeclares
      · obtain rfl := Option.some.inj hb'
        obtain ⟨a, ha, hdeclares⟩ := ih hf'
        exact ⟨a, List.mem_cons_of_mem c ha, hdeclares⟩
      · exact ⟨c, List.mem_cons_self, hdeclares⟩

/-- **No two entries of a table have the same declaration.** -/
theorem declarations_nodup (h : Lineage c ancestors) {j : ℕ} {f g : ScriptFunction}
    (hf : c.virtualFunctionTable[i]? = some f) (hg : c.virtualFunctionTable[j]? = some g)
    (hsame : f.declaration = g.declaration) : i = j := by
  induction h with
  | @root c h =>
      obtain ⟨stub, hstub⟩ := c.exists_stub hf
      obtain ⟨stub', hstub'⟩ := c.exists_stub hg
      rcases (h.entry i stub f hstub hf).inherited_or_declared with ⟨b, hb, -⟩ | hdeclares
      · cases hb
      rcases (h.entry j stub' g hstub' hg).inherited_or_declared with ⟨b, hb, -⟩ | hdeclares'
      · cases hb
      exact h.distinct i j f g hf hg hdeclares hdeclares' hsame
  | @derived c b ancestors hb h hdifferent ih =>
      obtain ⟨stub, hstub⟩ := c.exists_stub hf
      obtain ⟨stub', hstub'⟩ := c.exists_stub hg
      rcases (h.entry i stub f hstub hf).inherited_or_declared with ⟨b₁, hb₁, hf₁⟩ | hdeclares <;>
        rcases (h.entry j stub' g hstub' hg).inherited_or_declared with
          ⟨b₂, hb₂, hg₂⟩ | hdeclares'
      · obtain rfl := Option.some.inj hb₁
        obtain rfl := Option.some.inj hb₂
        exact ih hf₁ hg₂
      · -- the declaration of an ancestor carries another name
        obtain rfl := Option.some.inj hb₁
        obtain ⟨a, ha, hdeclares⟩ := hb.exists_declares hf₁
        exact absurd hsame (hdeclares.declaration_ne hdeclares' (hdifferent a ha).1)
      · obtain rfl := Option.some.inj hb₂
        obtain ⟨a, ha, hdeclares'⟩ := hb.exists_declares hg₂
        exact absurd hsame.symm (hdeclares'.declaration_ne hdeclares (hdifferent a ha).1)
      · exact h.distinct i j f g hf hg hdeclares hdeclares' hsame

/-- The virtual methods of an ancestor are those of the class, at the same places. -/
theorem methods_prefix (h : Lineage c ancestors) (ht : t ∈ c :: ancestors) :
    t.methods <+: c.methods := by
  induction h with
  | root h =>
      rw [List.mem_singleton.mp ht]
  | derived hb h hdifferent ih =>
      rcases List.mem_cons.mp ht with rfl | ht
      · exact List.prefix_refl _
      · exact List.IsPrefix.trans (ih ht) (h.copies _ rfl)

theorem getElem?_of_prefix {l l' : List ScriptFunction} (h : l <+: l') (hi : l[i]? = some stub) :
    l'[i]? = some stub := by
  obtain ⟨rest, rfl⟩ := h
  obtain ⟨hlt, -⟩ := List.getElem?_eq_some_iff.mp hi
  rw [List.getElem?_append_left hlt, hi]

/-- **The entry of a final method** is the same in all derived classes. -/
theorem entry_of_final (h : Lineage c ancestors) (ht : t ∈ c :: ancestors)
    (hstub : t.methods[i]? = some stub) (hfinal : stub.isFinal = true) :
    c.virtualFunctionTable[i]? = t.virtualFunctionTable[i]? := by
  induction h with
  | root h => rw [List.mem_singleton.mp ht]
  | @derived c b ancestors hb h hdifferent ih =>
      rcases List.mem_cons.mp ht with rfl | ht
      · rfl
      · rw [← ih ht]
        have hbase := getElem?_of_prefix (hb.methods_prefix ht) hstub
        have hown := getElem?_of_prefix (h.copies b rfl) hbase
        obtain ⟨implementation, himplementation⟩ := c.exists_entry hown
        cases h.entry i stub implementation hown himplementation with
        | inherited hb' _ hentry =>
            obtain rfl := Option.some.inj hb'
            rw [himplementation, hentry]
        | overridden _ _ hopen _ =>
            rw [hfinal] at hopen
            cases hopen
        | introduced hnew _ _ _ =>
            rw [List.getElem?_eq_none (hnew b rfl)] at hbase
            cases hbase

/-- **A class that cannot be inherited from** is nobody's ancestor. -/
theorem eq_of_noInherit (h : Lineage c ancestors) (ht : t ∈ c :: ancestors)
    (hnoInherit : t.objectType.isNoInherit = true) : t = c := by
  induction h with
  | root h => exact List.mem_singleton.mp ht
  | derived hb h hdifferent ih =>
      rcases List.mem_cons.mp ht with rfl | ht
      · rfl
      · obtain rfl := ih ht
        rw [h.inheritable _ rfl] at hnoInherit
        cases hnoInherit

/-- An ancestor has a lineage of its own. -/
theorem of_mem (h : Lineage c ancestors) (ht : t ∈ c :: ancestors) :
    ∃ ancestors', Lineage t ancestors' := by
  induction h with
  | root h =>
      rw [List.mem_singleton.mp ht]
      exact ⟨[], .root h⟩
  | derived hb h hdifferent ih =>
      rcases List.mem_cons.mp ht with rfl | ht
      · exact ⟨_, .derived hb h hdifferent⟩
      · exact ih ht

/-- Every virtual method is declared by the class or by one of its ancestors. -/
theorem exists_declares_stub (h : Lineage c ancestors) (hstub : c.methods[i]? = some stub) :
    ∃ a ∈ c :: ancestors, a.Declares stub := by
  induction h with
  | @root c h =>
      obtain ⟨implementation, himplementation⟩ := c.exists_entry hstub
      cases h.entry i stub implementation hstub himplementation with
      | inherited hb _ _ => cases hb
      | overridden hb _ _ _ => cases hb
      | introduced _ hdeclares _ _ => exact ⟨c, List.mem_cons_self, hdeclares⟩
  | @derived c b ancestors hb h hdifferent ih =>
      obtain ⟨implementation, himplementation⟩ := c.exists_entry hstub
      have hbase : b.methods[i]? = some stub → ∃ a ∈ c :: b :: ancestors, a.Declares stub := by
        intro hstub
        obtain ⟨a, ha, hdeclares⟩ := ih hstub
        exact ⟨a, List.mem_cons_of_mem c ha, hdeclares⟩
      cases h.entry i stub implementation hstub himplementation with
      | inherited hb' hstub' _ =>
          obtain rfl := Option.some.inj hb'
          exact hbase hstub'
      | overridden hb' hstub' _ _ =>
          obtain rfl := Option.some.inj hb'
          exact hbase hstub'
      | introduced _ hdeclares _ _ => exact ⟨c, List.mem_cons_self, hdeclares⟩

/-- **A method that a class declares** has an implementation with the same declaration in the table of
that class. -/
theorem implementation_of_declared (h : Lineage c ancestors) (hstub : c.methods[i]? = some stub)
    (hobject : stub.objectType = some c.objectType) :
    ∃ f, c.virtualFunctionTable[i]? = some f ∧ stub.declaration = f.declaration := by
  obtain ⟨implementation, himplementation⟩ := c.exists_entry hstub
  -- a method of an ancestor has another type
  have hnot : ∀ {b : ScriptClass} {as : List ScriptClass}, Lineage b as →
      (∀ a ∈ b :: as, a.objectType.typeId ≠ c.objectType.typeId) →
        b.methods[i]? ≠ some stub := by
    intro b as hb hdifferent hbase
    obtain ⟨a, ha, hdeclares⟩ := hb.exists_declares_stub hbase
    refine hdifferent a ha ?_
    rw [Option.some.inj (hdeclares.objectType.symm.trans hobject)]
  have hentry : c.Entry (ancestors.head?) i stub implementation ∧
      ∀ b, ancestors.head? = some b → b.methods[i]? ≠ some stub := by
    cases h with
    | root h =>
        exact ⟨h.entry i stub implementation hstub himplementation, fun b hb => by cases hb⟩
    | derived hb h hdifferent =>
        refine ⟨h.entry i stub implementation hstub himplementation, fun b' hb' => ?_⟩
        obtain rfl := Option.some.inj hb'
        exact hnot hb fun a ha => (hdifferent a ha).2
  obtain ⟨hentry, hnew⟩ := hentry
  cases hentry with
  | inherited hb hstub' _ => exact absurd hstub' (hnew _ hb)
  | overridden hb hstub' _ _ => exact absurd hstub' (hnew _ hb)
  | introduced _ _ _ hsame => exact ⟨implementation, himplementation, hsame⟩

end Lineage

/-! ### The two ways to find a method -/

/-- **The method that is found by its declaration** in the class that declares it, when that class or
the method is final, is the one `script_vtable_lookup` selects for any receiver; and it is the
function that the code calls. -/
theorem nonvirtualMatch_eq_lookup {receiver declaring : ScriptClass} {ancestors : List ScriptClass}
    (h : Lineage receiver ancestors) (hdeclaring : declaring ∈ receiver :: ancestors)
    {callee : ScriptFunction} (hcallee : callee ∈ declaring.methods)
    (hobject : callee.objectType = some declaring.objectType)
    (hstatic : (callee.isFinal || declaring.objectType.isNoInherit) = true) :
    ∃ f, scriptVtableLookup receiver callee = some f ∧
      getNonvirtualMatch declaring.objectType callee = some f.asMethod ∧
      ∀ (config : JitConfig) (object target : Value) (e e' : EmitState),
        config.allowDevirtualization = true →
          Runs (resolveVirtualScriptFunction config object callee) e target e' →
            target = ⟨.scriptFunction f.id, .pvoid⟩ := by
  obtain ⟨i, hstub⟩ := List.mem_iff_getElem?.mp hcallee
  obtain ⟨ancestors', hlineage⟩ := h.of_mem hdeclaring
  obtain ⟨f, hf, hsame⟩ := hlineage.implementation_of_declared hstub hobject
  have hreceiver : receiver.virtualFunctionTable[i]? = some f := by
    rw [← hf]
    rcases Bool.or_eq_true _ _ ▸ hstatic with hfinal | hnoInherit
    · exact h.entry_of_final hdeclaring hstub hfinal
    · rw [h.eq_of_noInherit hdeclaring hnoInherit]
  have hmatch : getNonvirtualMatch declaring.objectType callee = some f.asMethod := by
    rw [getNonvirtualMatch, declaring.methods_eq]
    have hsome : ((declaring.virtualFunctionTable.map (·.asMethod)).find?
        fun method => method.declaration = callee.declaration).isSome = true :=
      List.find?_isSome.mpr ⟨f.asMethod, List.mem_map_of_mem (List.mem_of_getElem? hf),
        decide_eq_true hsame.symm⟩
    obtain ⟨method, hmethod⟩ := Option.isSome_iff_exists.mp hsome
    obtain ⟨g, hg, rfl⟩ := List.mem_map.mp (List.mem_of_find?_eq_some hmethod)
    obtain ⟨j, hj⟩ := List.mem_iff_getElem?.mp hg
    have hfound := List.find?_some hmethod
    have hdeclaration : g.declaration = callee.declaration := of_decide_eq_true hfound
    obtain rfl := hlineage.declarations_nodup hj hf (hdeclaration.trans hsame)
    rw [hmethod, Option.some.inj (hj.symm.trans hf)]
  refine ⟨f, ?_, hmatch, ?_⟩
  · obtain ⟨-, hindex⟩ := declaring.virtual i callee hstub
    rw [scriptVtableLookup, hindex, if_neg (by omega), Int.toNat_natCast]
    exact hreceiver
  · intro config object target e e' hallow hruns
    simp only [resolveVirtualScriptFunction, runs_bind, runs_emitCheckNullPointer, hobject,
      runs_dereference] at hruns
    obtain ⟨_, _, rfl, ot, _, ⟨hot, rfl⟩, hruns⟩ := hruns
    obtain rfl := Option.some.inj hot
    rw [hallow, hstatic] at hruns
    simp only [Bool.and_self, if_true, runs_bind, runs_asllvmAssert, runs_dereference,
      getScriptFunction, runs_pure, hmatch] at hruns
    obtain ⟨_, _, ⟨-, rfl⟩, method, _, ⟨hmethod, rfl⟩, _, _, ⟨-, rfl⟩, rfl, -⟩ := hruns
    rw [← Option.some.inj hmethod]
    rfl

/-! ### A final method of a base -/

/-- A method without parameters, of the class of the given type. -/
def methodOf (id vfTableIdx : ℤ) (funcType : FuncType) (objectType : Option ObjectType)
    (declaration : String) (isFinal : Bool) : ScriptFunction :=
  { ScriptFunction.free id (.primitive .ttVoid) [] 0 with
    funcType := funcType
    objectType := objectType
    declaration := declaration
    vfTableIdx := vfTableIdx
    isFinal := isFinal }

/-- A class with a final method and with another one. -/
def baseType : ObjectType :=
  { ObjectType.bare 1 with methods := [⟨10, -1, "void A::f()"⟩, ⟨11, -1, "void A::g()"⟩] }

/-- A class derived from it, with another method in place of the second one. -/
def derivedType : ObjectType :=
  { ObjectType.bare 2 with methods := [⟨10, -1, "void A::f()"⟩, ⟨21, -1, "void B::g()"⟩] }

/-- The virtual methods of both. -/
def virtualMethods : List ScriptFunction :=
  [methodOf 12 0 .asFUNC_VIRTUAL (some baseType) "void A::f()" true,
    methodOf 13 1 .asFUNC_VIRTUAL (some baseType) "void A::g()" false]

theorem virtualMethods_virtual (i : ℕ) (stub : ScriptFunction) (h : virtualMethods[i]? = some stub) :
    stub.funcType = .asFUNC_VIRTUAL ∧ stub.vfTableIdx = i := by
  rcases i with _ | _ | i <;> simp_all [virtualMethods, methodOf] <;> subst h <;> exact ⟨rfl, rfl⟩

/-- `class A { void f() final; void g(); }`. -/
def baseClass : ScriptClass where
  name := "A"
  objectType := baseType
  methods := virtualMethods
  virtualFunctionTable :=
    [methodOf 10 (-1) .asFUNC_SCRIPT (some baseType) "void A::f()" true,
      methodOf 11 (-1) .asFUNC_SCRIPT (some baseType) "void A::g()" false]
  length_eq := rfl
  virtual := virtualMethods_virtual
  listed i := by rcases i with _ | _ | i <;> rfl

/-- `class B : A { void g(); }`. -/
def derivedClass : ScriptClass where
  name := "B"
  objectType := derivedType
  methods := virtualMethods
  virtualFunctionTable :=
    [methodOf 10 (-1) .asFUNC_SCRIPT (some baseType) "void A::f()" true,
      methodOf 21 (-1) .asFUNC_SCRIPT (some derivedType) "void B::g()" false]
  length_eq := rfl
  virtual := virtualMethods_virtual
  listed i := by rcases i with _ | _ | i <;> rfl

/-- The declaration of a method of the two classes. -/
def voidMethod (className name : String)
    (hplain : '(' ∉ className.toList ++ name.toList ∧ ' ' ∉ className.toList ++ name.toList ∧
      ':' ∉ name.toList) : MethodText where
  returnType := "void"
  className := className
  name := name
  parameters := ")"
  noParenthesis := by simpa using hplain.1
  noSpace := hplain.2.1
  noColon := hplain.2.2

theorem baseClass_declares (id vfTableIdx : ℤ) (funcType : FuncType) (isFinal : Bool) :
    baseClass.Declares (methodOf id vfTableIdx funcType (some baseType) "void A::f()" isFinal) ∧
      baseClass.Declares (methodOf id vfTableIdx funcType (some baseType) "void A::g()" isFinal) :=
  ⟨⟨rfl, voidMethod "A" "f" (by decide), rfl, rfl⟩,
    ⟨rfl, voidMethod "A" "g" (by decide), rfl, rfl⟩⟩

theorem baseClass_root : baseClass.DerivesFrom none where
  inheritable _ hb := by cases hb
  copies _ hb := by cases hb
  entry i stub implementation hstub himplementation := by
    rcases i with _ | _ | i
    · obtain rfl := Option.some.inj hstub
      obtain rfl := Option.some.inj himplementation
      exact .introduced (fun b hb => by cases hb) (baseClass_declares _ _ _ _).1
        (baseClass_declares _ _ _ _).1 rfl
    · obtain rfl := Option.some.inj hstub
      obtain rfl := Option.some.inj himplementation
      exact .introduced (fun b hb => by cases hb) (baseClass_declares _ _ _ _).2
        (baseClass_declares _ _ _ _).2 rfl
    · cases hstub
  distinct i j f g hf hg _ _ hsame := by
    rcases i with _ | _ | i <;> rcases j with _ | _ | j <;> cases hf <;> cases hg <;>
      first | rfl | exact absurd hsame (by decide)

theorem derivedClass_derivesFrom : derivedClass.DerivesFrom (some baseClass) where
  inheritable b hb := by
    obtain rfl := Option.some.inj hb
    rfl
  copies b hb := by
    obtain rfl := Option.some.inj hb
    exact List.prefix_refl _
  entry i stub implementation hstub himplementation := by
    rcases i with _ | _ | i
    · exact .inherited rfl hstub himplementation
    · obtain rfl := Option.some.inj hstub
      obtain rfl := Option.some.inj himplementation
      exact .overridden rfl rfl rfl ⟨rfl, voidMethod "B" "g" (by decide), rfl, rfl⟩
    · cases hstub
  distinct i j f g hf hg _ _ hsame := by
    rcases i with _ | _ | i <;> rcases j with _ | _ | j <;> cases hf <;> cases hg <;>
      first | rfl | exact absurd hsame (by decide)

theorem derivedClass_lineage : Lineage derivedClass [baseClass] := by
  refine .derived (.root baseClass_root) derivedClass_derivesFrom fun a ha => ?_
  rw [List.mem_singleton.mp ha]
  decide

/-- **A call of the final method** of the base, with a receiver of the derived class. -/
theorem nonvirtualMatch_eq_lookup_base :
    ∃ f, scriptVtableLookup derivedClass
        (methodOf 12 0 .asFUNC_VIRTUAL (some baseType) "void A::f()" true) = some f ∧
      getNonvirtualMatch baseType
        (methodOf 12 0 .asFUNC_VIRTUAL (some baseType) "void A::f()" true) = some f.asMethod ∧
      ∀ (config : JitConfig) (object target : Value) (e e' : EmitState),
        config.allowDevirtualization = true →
          Runs (resolveVirtualScriptFunction config object
            (methodOf 12 0 .asFUNC_VIRTUAL (some baseType) "void A::f()" true)) e target e' →
            target = ⟨.scriptFunction f.id, .pvoid⟩ :=
  @nonvirtualMatch_eq_lookup derivedClass baseClass _ derivedClass_lineage
    (List.mem_cons_of_mem _ List.mem_cons_self) _ List.mem_cons_self rfl rfl

end Asllvm
