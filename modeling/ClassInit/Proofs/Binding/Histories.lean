import ClassInit.Proofs.Binding.Changes
import ClassInit.Proofs.Document.Tables

/-!
# Tables over time

Whatever a table was loaded with and whatever calls it has seen since, binding units included, its
index answers for its types, the well-known types are found, the handles that were handed out keep
their entries, and its document is read as the same table (`BindingTable.after_consistent`).
-/

set_option autoImplicit false

namespace ClassInit

/-- A call that may change a table. -/
inductive TableCall where
  | addType (d : TypeDescriptor)
  | internClass (name : String)
  | addVariable (v : VariableBinding)
  | addMethod (m : MethodBinding)
  | setSuperclass (id superclass : TypeId)
  | setConstant (id : VariableId) (value : Constant)
  | bind (u : CompilationUnit)

/-- The table after the call. An entry that does not exist cannot be changed; a unit that cannot be
bound leaves what was declared up to there. -/
def TableCall.run (t : BindingTable) : TableCall → BindingTable
  | addType d => (t.addType d).2
  | internClass name => (t.internClass name).2
  | addVariable v => (t.addVariable v).2
  | addMethod m => (t.addMethod m).2
  | setSuperclass id superclass => (t.setSuperclass id superclass).toOption.getD t
  | setConstant id value => (t.setConstant id value).toOption.getD t
  | bind u => (u.bind t).table

/-- The table after calls, from the first to the last. -/
def BindingTable.after (t : BindingTable) (calls : List TableCall) : BindingTable :=
  calls.foldl TableCall.run t

namespace BindingTable

variable {t t' : BindingTable}

/-! ## Entries stay -/

/-- Every entry of the first table is in the second under the same handle, up to the superclass of a
type and the constant of a variable. -/
structure Retains (t t' : BindingTable) : Prop where
  types : ∀ id d, t.typeAt id = .ok d → ∃ superclass, t'.typeAt id = .ok { d with superclass }
  vars : ∀ id v, t.variableAt id = .ok v →
    ∃ constantValue, t'.variableAt id = .ok { v with constantValue }
  methods : ∀ id m, t.methodAt id = .ok m → t'.methodAt id = .ok m

theorem variableAt_eq_ok {id : VariableId} {v : VariableBinding} :
    t.variableAt id = .ok v ↔ t.vars[id.index]? = some v := by
  unfold variableAt
  cases t.vars[id.index]? <;> simp

theorem methodAt_eq_ok {id : MethodId} {m : MethodBinding} :
    t.methodAt id = .ok m ↔ t.methods[id.index]? = some m := by
  unfold methodAt
  cases t.methods[id.index]? <;> simp

namespace Retains

theorem refl (t : BindingTable) : t.Retains t :=
  ⟨fun _ d entry => ⟨d.superclass, entry⟩, fun _ v entry => ⟨v.constantValue, entry⟩,
    fun _ _ entry => entry⟩

/-- Entries that stay twice stay. -/
theorem trans {a b c : BindingTable} (first : a.Retains b) (second : b.Retains c) :
    a.Retains c := by
  refine ⟨fun id d entry => ?_, fun id v entry => ?_, fun id m entry =>
    second.methods id m (first.methods id m entry)⟩
  · obtain ⟨superclass, entry'⟩ := first.types id d entry
    obtain ⟨superclass', entry''⟩ := second.types id _ entry'
    exact ⟨superclass', entry''⟩
  · obtain ⟨value, entry'⟩ := first.vars id v entry
    obtain ⟨value', entry''⟩ := second.vars id _ entry'
    exact ⟨value', entry''⟩

/-- Changes to the types alone. -/
theorem of_types
    (old : ∀ id d, t.typeAt id = .ok d → ∃ superclass, t'.typeAt id = .ok { d with superclass })
    (vars : t'.vars = t.vars) (methods : t'.methods = t.methods) : t.Retains t' := by
  refine ⟨old, fun id v entry => ⟨v.constantValue, ?_⟩, fun id m entry => ?_⟩
  · rw [variableAt_eq_ok] at entry ⊢
    rw [vars, entry]
  · rw [methodAt_eq_ok] at entry ⊢
    rw [methods, entry]

/-- A new type leaves the entries that are there. -/
theorem pushType (t : BindingTable) (d : TypeDescriptor) : t.Retains (t.pushType d).2 :=
  of_types (Extends.pushType t d).oldTypes rfl rfl

theorem addType (t : BindingTable) (d : TypeDescriptor) : t.Retains (t.addType d).2 := by
  obtain ⟨-, vars, methods, -⟩ := addType_adds t d
  exact of_types (addType_spec t d).1.oldTypes vars methods

/-- So does a class that is interned. -/
theorem internClass (t : BindingTable) (name : String) : t.Retains (t.internClass name).2 := by
  rcases t.internClass_cases name with ⟨id, -, same⟩ | ⟨superclass, -, -, pushed⟩
  · rw [same]
    exact refl t
  · rw [pushed]
    exact pushType t _

theorem addVariable (t : BindingTable) (v : VariableBinding) : t.Retains (t.addVariable v).2 := by
  refine ⟨fun _ d entry => ⟨d.superclass, entry⟩, fun id w entry => ⟨w.constantValue, ?_⟩,
    fun _ _ entry => entry⟩
  rw [variableAt_eq_ok] at entry ⊢
  have old : id.index < t.vars.size := (Array.getElem?_eq_some_iff.mp entry).1
  show (t.vars.push v)[id.index]? = _
  rw [Array.getElem?_push, if_neg (Nat.ne_of_lt old), entry]

theorem addMethod (t : BindingTable) (m : MethodBinding) : t.Retains (t.addMethod m).2 := by
  refine ⟨fun _ d entry => ⟨d.superclass, entry⟩, fun _ v entry => ⟨v.constantValue, entry⟩,
    fun id n entry => ?_⟩
  rw [methodAt_eq_ok] at entry ⊢
  have old : id.index < t.methods.size := (Array.getElem?_eq_some_iff.mp entry).1
  show (t.methods.push m)[id.index]? = _
  rw [Array.getElem?_push, if_neg (Nat.ne_of_lt old), entry]

/-- Setting a superclass keeps names and kinds. -/
theorem setSuperclass {id superclass : TypeId} (set : t.setSuperclass id superclass = .ok t') :
    t.Retains t' := by
  have old := (Extends.setSuperclass set).oldTypes
  obtain ⟨-, rfl⟩ := setSuperclass_eq_ok.mp set
  exact of_types old rfl rfl

/-- Setting a constant keeps everything else of a variable. -/
theorem setConstant {id : VariableId} {value : Constant} (set : t.setConstant id value = .ok t') :
    t.Retains t' := by
  obtain ⟨-, rfl⟩ := setConstant_eq_ok.mp set
  refine ⟨fun _ d entry => ⟨d.superclass, entry⟩, fun id' v entry => ?_, fun _ _ entry => entry⟩
  rw [variableAt_eq_ok] at entry
  by_cases same : id.index = id'.index
  · refine ⟨some value, variableAt_eq_ok.mpr ?_⟩
    rw [Array.getElem?_modify, if_pos same, entry]
    rfl
  · refine ⟨v.constantValue, variableAt_eq_ok.mpr ?_⟩
    rw [Array.getElem?_modify, if_neg same, entry]

/-- So does every change. -/
theorem change (change : t.Change t') : t.Retains t' := by
  cases change with
  | addType qualifier name kind modifiers outer => exact addType t _
  | internClass name => exact internClass t name
  | addVariable v => exact addVariable t v
  | addMethod m => exact addMethod t m
  | setSuperclass set => exact setSuperclass set

theorem of_result {r : Except ResolveError BindingTable}
    (success : ∀ t', r = .ok t' → t.Retains t') :
    t.Retains (r.toOption.getD t) := by
  cases r with
  | ok t' => exact success t' rfl
  | error e => exact refl t

/-- No call takes an entry away. -/
theorem run (t : BindingTable) (call : TableCall) : t.Retains (call.run t) := by
  cases call with
  | addType d => exact addType t d
  | internClass name => exact internClass t name
  | addVariable v => exact addVariable t v
  | addMethod m => exact addMethod t m
  | setSuperclass id superclass => exact of_result fun _ set => setSuperclass set
  | setConstant id value => exact of_result fun _ set => setConstant set
  | bind u =>
    exact (u.bind_changes t).keeps (fun _ _ change kept => kept.trans (.change change)) (refl t)

/-- Entries stay through any number of calls, those that fail included. -/
theorem after (t : BindingTable) (calls : List TableCall) : t.Retains (t.after calls) := by
  induction calls generalizing t with
  | nil => exact refl t
  | cons call calls ih => exact (run t call).trans (ih (call.run t))

end Retains

end BindingTable

/-! ## Handles -/

/-- The handle that the call hands out on the first table has in the second table the entry that it
was handed out for. The handles that binding hands out belong to entries of the table that it
leaves. -/
def TableCall.Denotes (t t' : BindingTable) : TableCall → Prop
  | addType d => ∃ superclass, t'.typeAt (t.addType d).1 = .ok { d with superclass }
  | internClass name => ∃ d, t'.typeAt (t.internClass name).1 = .ok d ∧ d.name = name
  | addVariable v =>
    ∃ constantValue, t'.variableAt (t.addVariable v).1 = .ok { v with constantValue }
  | addMethod m => t'.methodAt (t.addMethod m).1 = .ok m
  | bind u => (u.bind t).table.Retains t'
  | setSuperclass _ _ | setConstant _ _ => True

/-- A handle that was handed out keeps its entry. -/
theorem TableCall.denotes_of_retains {t t' : BindingTable} (call : TableCall)
    (kept : (call.run t).Retains t') : call.Denotes t t' := by
  cases call with
  | addType d =>
    obtain ⟨-, -, superclass, entry⟩ := BindingTable.addType_spec t d
    obtain ⟨superclass', entry'⟩ := kept.types _ _ entry
    exact ⟨superclass', entry'⟩
  | internClass name =>
    have found := t.lookupType_internClass name name
    rw [if_pos rfl] at found
    obtain ⟨⟨d, entry, named⟩, -⟩ := BindingTable.lookupType_eq_some_iff.mp found
    obtain ⟨superclass, entry⟩ := kept.types _ _ entry
    exact ⟨_, entry, named⟩
  | addVariable v =>
    refine kept.vars _ v (BindingTable.variableAt_eq_ok.mpr ?_)
    show (t.vars.push v)[t.vars.size]? = some v
    rw [Array.getElem?_push_size]
  | addMethod m =>
    refine kept.methods _ m (BindingTable.methodAt_eq_ok.mpr ?_)
    show (t.methods.push m)[t.methods.size]? = some m
    rw [Array.getElem?_push_size]
  | bind u => exact kept
  | setSuperclass id superclass => trivial
  | setConstant id value => trivial

namespace BindingTable

variable {t t' : BindingTable}

/-! ## Well-known types -/

theorem Retains.isSome_lookupType (kept : t.Retains t') {name : String}
    (known : (t.lookupType name).isSome) :
    (t'.lookupType name).isSome := by
  obtain ⟨id, found⟩ := Option.isSome_iff_exists.mp known
  obtain ⟨⟨d, entry, named⟩, -⟩ := lookupType_eq_some_iff.mp found
  obtain ⟨superclass, entry⟩ := kept.types id d entry
  obtain ⟨id', found'⟩ := exists_lookupType (Array.mem_of_getElem? (typeAt_eq_ok.mp entry)) named
  exact Option.isSome_iff_exists.mpr ⟨id', found'⟩

/-- Where a type is missing, adding it makes it known. -/
theorem isSome_lookupType_pushType (t : BindingTable) (d : TypeDescriptor) :
    ((if (t.lookupType d.name).isSome then t else (t.pushType d).2).lookupType d.name).isSome := by
  split
  · assumption
  · rw [lookupType_pushType, if_pos rfl]
    rfl

/-- The well-known types are there once they were asked for. -/
theorem ensureWellKnown_known (t : BindingTable) :
    t.ensureWellKnown.objectType.isSome ∧ t.ensureWellKnown.stringType.isSome := by
  have root := t.isSome_lookupType_pushType (external Names.objectType)
  obtain ⟨t₁, defined⟩ :
      ∃ t₁, t₁ = if t.objectType.isSome then t else (t.pushType (external Names.objectType)).2 :=
    ⟨_, rfl⟩
  have ensured : t.ensureWellKnown = if t₁.stringType.isSome then t₁ else
      (t₁.pushType ⟨Names.stringType, .classType, .ofList [.pub, .final], t₁.objectType,
        none⟩).2 := by
    rw [defined]
    rfl
  replace root : (t₁.lookupType Names.objectType).isSome := defined ▸ root
  rw [ensured]
  refine ⟨?_, t₁.isSome_lookupType_pushType
    ⟨Names.stringType, .classType, .ofList [.pub, .final], t₁.objectType, none⟩⟩
  split
  · exact root
  · exact (Retains.pushType t₁ _).isSome_lookupType root

/-- Whatever entries a table was loaded with and whatever calls were made since: a name is found as
the last type that has it, and not found if none has; the well-known types are found; all entries
stay under their handles in every later table, the one that the next call hands out among them; and
if the numbers in the table fit into a document, the document is read as the same table, with the
same index and nothing added. -/
theorem after_consistent (types : List TypeDescriptor) (vars : List VariableBinding)
    (methods : List MethodBinding) (before : List TableCall) (call : TableCall)
    (later : List TableCall) (t : BindingTable)
    (reached : t = (load types vars methods).after before) :
    (∀ name id, t.lookupType name = some id ↔ (∃ d, t.typeAt id = .ok d ∧ d.name = name) ∧
      ∀ other d, t.typeAt other = .ok d → d.name = name → other.index ≤ id.index) ∧
    (∀ name, t.lookupType name = none ↔ ∀ d ∈ t.types, d.name ≠ name) ∧
    (t.objectType.isSome ∧ t.stringType.isSome) ∧
    (t.Retains ((call.run t).after later) ∧ call.Denotes t ((call.run t).after later)) ∧
    ((∀ v ∈ t.vars, ∀ c ∈ v.constantValue, c.isFloating = false) → (∀ l ∈ t.leaves, l.IsWord) →
      ∀ text ∈ [t.toJson.text, t.toJson.prettyText], CommandLine.document? ofJson? text =
        if t.toJson.nesting ≤ Limits.documentNesting then some t else none) := by
  have known : t.objectType.isSome ∧ t.stringType.isSome := by
    obtain ⟨root, string⟩ := ensureWellKnown_known ((untyped vars methods).pushTypes types)
    rw [reached]
    exact ⟨(Retains.after _ before).isSome_lookupType root,
      (Retains.after _ before).isSome_lookupType string⟩
  refine ⟨fun name id => lookupType_eq_some_iff, fun name => lookupType_eq_none_iff, known,
    ⟨?_, ?_⟩,
    fun exact words => document?_text known.1 known.2 fun l hl =>
      ⟨isFinite_of_mem exact l hl, words l hl⟩⟩
  · exact (Retains.run t call).trans (.after _ later)
  · exact call.denotes_of_retains (.after _ later)

/-- A table that was loaded with two types of one name and a dangling superclass, in which an enum,
a constant and the types of a unit were entered since. -/
def historySample : List TypeDescriptor × List VariableBinding × List TableCall :=
  let type (name : String) (kind : TypeKind) (superclass : Option TypeId) : TypeDescriptor :=
    ⟨name, kind, .of .pub, superclass, none⟩
  let unit : CompilationUnit := ⟨"A.java", some "p",
    [⟨⟨.unassigned, .dummy, .classType, "A", .empty, some ⟨"q.B", none⟩, none, []⟩, []⟩], .initial⟩
  ([type "p.A" .classType none, type "p.A" .interfaceType (some ⟨77⟩)],
    [⟨"x", .primitive .int, .of .static, some ⟨0⟩, true, some (.string "\"\n")⟩],
    [.addType (type "p.E" .enumType none), .setConstant ⟨0⟩ (.long 9), .setConstant ⟨5⟩ (.int 0),
      .bind unit,
      .setSuperclass ⟨4⟩ ⟨1⟩])

/-- In that table the second of the two types is found, and the class of the unit has another
name. -/
theorem after_consistent_sample :
    ∃ t, t = (load historySample.1 historySample.2.1 []).after historySample.2.2 ∧
      t.types.toList.map (·.name) =
        ["p.A", "p.A", Names.objectType, Names.stringType, Names.enumType, "p.E", "p.A$1",
        "q.B"] ∧
      t.lookupType "p.A" = some ⟨1⟩ ∧
      t.Retains ((TableCall.internClass "r.C").run t) ∧
      CommandLine.document? ofJson? t.toJson.text = some t := by
  obtain ⟨t, reached⟩ : ∃ t, t =
    (load historySample.1 historySample.2.1 []).after historySample.2.2 := ⟨_, rfl⟩
  obtain ⟨-, -, -, ⟨kept, -⟩, documents⟩ :=
    after_consistent _ _ _ _ (.internClass "r.C") [] t reached
  refine ⟨t, reached, ?_, ?_, kept, (documents ?_ ?_ _ List.mem_cons_self).trans (if_pos ?_)⟩ <;>
  · rw [reached]
    decide +kernel

/-- A variable whose type is an array of 130 dimensions. -/
def deepSample : VariableBinding :=
  ⟨"x", Nat.repeat TypeRef.array 130 (.primitive .int), .empty, none, true, none⟩

/-- The document of a new table with that variable is refused. -/
theorem deepSample_refused :
    ∃ t, t = new.after [.addVariable deepSample] ∧
      (∀ v ∈ t.vars, ∀ c ∈ v.constantValue, c.isFloating = false) ∧
      CommandLine.document? ofJson? t.toJson.text = none := by
  obtain ⟨t, reached⟩ : ∃ t, t = new.after [.addVariable deepSample] := ⟨_, rfl⟩
  have document : CommandLine.document? ofJson? t.toJson.text =
      if t.toJson.nesting ≤ Limits.documentNesting then some t else none := by
    refine document?_text ?_ ?_ ?_ _ List.mem_cons_self <;>
    · rw [reached]
      decide +kernel
  refine ⟨t, reached, ?_, document.trans (if_neg ?_)⟩ <;>
  · rw [reached]
    decide +kernel

end BindingTable

end ClassInit
