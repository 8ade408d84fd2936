import ClassInit.Proofs.Binding.Registry

/-!
# Tables whose types are in range

If every type that the entries of a table name is a type of the table, this stays so when a unit
without handles is declared (`Binding.declareType_inRange`) and resolved (`resolveTypes_inRange`).
-/

set_option autoImplicit false

namespace ClassInit

open Binding

namespace BindingTable

/-- The type, if there is one, is a type of the table. -/
def Knows (t : BindingTable) (id : Option TypeId) : Prop := ∀ p ∈ id, p.index < t.types.size

/-- Every type that an entry of the table names is a type of the table. -/
structure InRange (t : BindingTable) : Prop where
  superclasses : ∀ d ∈ t.types, t.Knows d.superclass
  around : ∀ d ∈ t.types, t.Knows d.declaringType
  vars : ∀ v ∈ t.vars, t.Knows v.declaringType
  methods : ∀ m ∈ t.methods, m.declaringType.index < t.types.size

variable {t t' : BindingTable}

/-- A table that has become larger knows what it knew. -/
theorem Knows.later {id : Option TypeId} (known : t.Knows id)
    (more : t.types.size ≤ t'.types.size) :
    t'.Knows id := fun p hp => Nat.lt_of_lt_of_le (known p hp) more

theorem knows_none (t : BindingTable) : t.Knows none := fun _ hp => nomatch hp

/-- Once a superclass is set, an entry is an old one, or an old one with the superclass. -/
theorem mem_types_of_set {id superclass : TypeId} (set : t.setSuperclass id superclass = .ok t')
    {d : TypeDescriptor} (hd : d ∈ t'.types) :
    ∃ d₀ ∈ t.types, d = d₀ ∨ d = { d₀ with superclass := some superclass } := by
  obtain ⟨-, rfl⟩ := setSuperclass_eq_ok.mp set
  rw [withSuperclass_types] at hd
  obtain ⟨i, below, rfl⟩ := Array.mem_iff_getElem.mp hd
  rw [Array.size_modify] at below
  refine ⟨t.types[i], Array.getElem_mem below, ?_⟩
  rw [Array.getElem_modify]
  split
  · exact .inr rfl
  · exact .inl rfl

/-- The handles in a new table are those of entries. -/
theorem inRange_new : BindingTable.new.InRange := by
  have types : ∀ d ∈ BindingTable.new.types,
    (∀ p ∈ d.superclass, p.index < BindingTable.new.types.size) ∧
      ∀ p ∈ d.declaringType, p.index < BindingTable.new.types.size := by decide +kernel
  exact ⟨fun d hd => (types d hd).1, fun d hd => (types d hd).2, fun _ hv =>
    absurd hv (Array.not_mem_empty _),
    fun _ hm => absurd hm (Array.not_mem_empty _)⟩

namespace InRange

/-! ## Adding entries -/

/-- A new entry with known handles keeps all handles in range. -/
theorem pushType (inRange : t.InRange) {d : TypeDescriptor} (superclass : t.Knows d.superclass)
    (around : t.Knows d.declaringType) : (t.pushType d).2.InRange := by
  have more : t.types.size ≤ (t.pushType d).2.types.size := (Extends.pushType t d).moreTypes
  refine ⟨fun d' hd' => ?_, fun d' hd' => ?_, fun v hv => (inRange.vars v hv).later more,
    fun m hm => Nat.lt_of_lt_of_le (inRange.methods m hm) more⟩
  · rcases Array.mem_push.mp hd' with old | rfl
    · exact (inRange.superclasses d' old).later more
    · exact superclass.later more
  · rcases Array.mem_push.mp hd' with old | rfl
    · exact (inRange.around d' old).later more
    · exact around.later more

theorem addVariable (inRange : t.InRange) {v : VariableBinding} (owner : t.Knows v.declaringType) :
    (t.addVariable v).2.InRange := by
  refine ⟨inRange.superclasses, inRange.around, fun w hw => ?_, inRange.methods⟩
  rcases Array.mem_push.mp hw with old | rfl
  · exact inRange.vars w old
  · exact owner

theorem addMethod (inRange : t.InRange) {m : MethodBinding}
    (owner : m.declaringType.index < t.types.size) :
    (t.addMethod m).2.InRange := by
  refine ⟨inRange.superclasses, inRange.around, inRange.vars, fun n hn => ?_⟩
  rcases Array.mem_push.mp hn with old | rfl
  · exact inRange.methods n old
  · exact owner

theorem knows_objectType (t : BindingTable) : t.Knows t.objectType :=
  fun _ found => lookupType_eq_some found

theorem addClass (inRange : t.InRange) {d : TypeDescriptor} (superclass : t.Knows d.superclass)
    (around : t.Knows d.declaringType) : (t.addClass d).2.InRange := by
  unfold BindingTable.addClass
  split
  · exact inRange.pushType (knows_objectType t) around
  · exact inRange.pushType superclass around

/-- Interning a class keeps all handles in range, and its own is. -/
theorem internClass (inRange : t.InRange) (name : String) :
    (t.internClass name).2.InRange ∧
      (t.internClass name).1.index < (t.internClass name).2.types.size := by
  rcases t.internClass_cases name with ⟨id, found, same⟩ | ⟨superclass, -, parent, pushed⟩
  · rw [same]
    exact ⟨inRange, lookupType_eq_some found⟩
  · rw [pushed]
    refine ⟨inRange.pushType ?_ (knows_none t), index_pushType_lt t _⟩
    rcases parent with rfl | ⟨rfl, -⟩
    · exact knows_objectType t
    · exact knows_none t

theorem addType (inRange : t.InRange) {d : TypeDescriptor} (bare : d.superclass = none)
    (around : t.Knows d.declaringType) : (t.addType d).2.InRange := by
  have superclass : t.Knows d.superclass := bare ▸ knows_none t
  unfold BindingTable.addType
  split
  · split
    · exact inRange.addClass superclass around
    · obtain ⟨inRange', known⟩ := inRange.internClass Names.enumType
      refine inRange'.pushType (fun p hp => ?_) (around.later (Extends.internClass t _).moreTypes)
      cases hp
      exact known
    · exact inRange.pushType superclass around
    · exact inRange.pushType superclass around
  · exact inRange.pushType superclass around

/-- Recording a known superclass keeps all handles in range. -/
theorem setSuperclass {id superclass : TypeId} (inRange : t.InRange)
    (known : superclass.index < t.types.size) (set : t.setSuperclass id superclass = .ok t') :
    t'.InRange := by
  obtain ⟨-, rfl⟩ := setSuperclass_eq_ok.mp set
  have more : t.types.size ≤
      (t.types.modify id.index fun d => { d with superclass := some superclass }).size :=
    Nat.le_of_eq Array.size_modify.symm
  refine ⟨fun d hd => ?_, fun d hd => ?_, fun v hv => (inRange.vars v hv).later more,
    fun m hm => Nat.lt_of_lt_of_le (inRange.methods m hm) more⟩
  · obtain ⟨d₀, old, rfl | rfl⟩ := mem_types_of_set set hd
    · exact (inRange.superclasses _ old).later more
    · intro p hp
      cases hp
      exact Nat.lt_of_lt_of_le known more
  · obtain ⟨d₀, old, rfl | rfl⟩ := mem_types_of_set set hd
    · exact (inRange.around _ old).later more
    · exact (inRange.around d₀ old).later more

end InRange

end BindingTable

/-! ## Declaring -/

namespace Binding

theorem declareFragment_inRange {owner : TypeId} {modifiers : Modifiers} {type : TypeRef}
    (f : Fragment) {s : State} (known : owner.index < s.table.types.size)
    (inRange : s.table.InRange) :
    (declareFragment owner modifiers type f s).2.table.InRange := by
  unfold declareFragment
  cases f.binding with
  | some v => exact inRange
  | none =>
    refine inRange.addVariable fun p hp => ?_
    cases hp
    exact known

theorem declareMethod_inRange {owner : TypeId} (h : MethodHead) {s : State}
    (known : owner.index < s.table.types.size) (inRange : s.table.InRange) :
    (declareMethod owner h s).2.table.InRange := by
  unfold declareMethod
  cases h.binding with
  | some id => exact inRange
  | none => exact inRange.addMethod known

/-- Declaring a type keeps all handles in range and gives it a handle that is. -/
theorem declareHead_inRange {qualifier : Option String} {outer : Option TypeId} {d d' : TypeDecl}
    {id : TypeId} {s s' : State} (around : s.table.Knows outer) (inRange : s.table.InRange)
    (run : declareHead qualifier outer d s = (.done (d', id), s')) :
    s'.table.InRange ∧ id.index < s'.table.types.size := by
  obtain ⟨enters, -, same⟩ := declareHead_enters run
  obtain ⟨id', bound, known⟩ := enters.known _ (List.mem_singleton.mpr rfl)
  rw [same] at bound
  cases bound
  refine ⟨?_, known⟩
  cases declareHead_declared run with
  | kept => exact inRange
  | entered _ added =>
    have stays := inRange.addType (d := headEntry s.table qualifier outer d.head) rfl around
    rw [added] at stays
    exact stays

/-- If the types are in range, the given one among them, they stay so. -/
def KeepsRange (id : TypeId) (s s' : State) : Prop :=
  s.table.InRange ∧ id.index < s.table.types.size → s'.table.InRange ∧
    id.index < s'.table.types.size

theorem KeepsRange.list {α : Type} {id : TypeId} {f : α → Edit State ResolveError α}
    (single : ∀ a b s s', f a s = (.done b, s') → KeepsRange id s s') {as bs : List α}
    {s s' : State} (run : Edit.list f as s = (.done bs, s')) : KeepsRange id s s' :=
  (Edit.exists_done_of_mem (fun _ holds => holds)
    (fun _ _ _ first second holds => second (first holds)) single
    run).1

theorem declareMember_inRange {nested : TypeDecl → Edit State ResolveError TypeDecl} {id : TypeId}
    {isInterfaceLike : Bool}
    (single : ∀ d d' s s', nested d s = (.done d', s') → KeepsRange id s s') {m m' : Member}
    {s s' : State} (run : declareMember nested id isInterfaceLike m s = (.done m', s')) :
    KeepsRange id s s' := by
  intro holds
  cases declareMember_declared run with
  | type declared => exact single _ _ _ _ declared holds
  | field f =>
    exact (mapM_keeps (T := fun t => t.InRange ∧ id.index < t.types.size)
      (R := fun _ _ => True) (f := declareFragment id
        (if isInterfaceLike then f.modifiers.union .interfaceField else f.modifiers) f.type)
      (fun g s holds => ⟨trivial, declareFragment_inRange g holds.2 holds.1,
        Nat.lt_of_lt_of_le holds.2 (declareFragment_enters id _ .empty f.type g s).grown.moreTypes⟩)
      f.fragments s holds).2
  | method h body =>
    exact ⟨declareMethod_inRange h holds.2 holds.1,
      Nat.lt_of_lt_of_le holds.2 (declareMethod_enters id h s).grown.moreTypes⟩
  | initializer i => exact holds

/-- So does declaring the members of a type. -/
theorem declareContents_inRange {nested : String → TypeDecl → Edit State ResolveError TypeDecl}
    {id : TypeId} (single : ∀ name d d' s s', nested name d s = (.done d', s') → KeepsRange id s s')
    {d d' : TypeDecl} {s s' : State} (run : declareContents nested id d s = (.done d', s')) :
    KeepsRange id s s' := by
  obtain ⟨descriptor, ms, s₁, -, hms, hbodies⟩ := declareContents_walks run
  obtain ⟨listed, -⟩ := TypeDecl.editLocalTypes_done hbodies
  have first := KeepsRange.list (fun _ _ _ _ run => declareMember_inRange (single _) run) hms
  have second := KeepsRange.list (single _) listed
  exact fun holds => second (first holds)

/-- Declaring a type inside a type of the table keeps the types in range. -/
theorem declareType_inRange {levels : Nat} {qualifier : Option String} {outer : Option TypeId}
    {d d' : TypeDecl} {s s' : State} (around : s.table.Knows outer) (inRange : s.table.InRange)
    (run : declareType levels qualifier outer d s = (.done d', s')) : s'.table.InRange := by
  induction levels generalizing qualifier outer d d' s s' with
  | zero => exact absurd run Edit.stop_ne_done
  | succ levels ih =>
    obtain ⟨⟨d₁, id⟩, s₁, hhead, hcontents⟩ := Edit.andThen_eq_done.mp run
    refine (declareContents_inRange (fun name c c' s s' run holds => ?_) hcontents
      (declareHead_inRange around inRange hhead)).1
    refine ⟨ih (fun p hp => ?_) holds.1 run,
      Nat.lt_of_lt_of_le holds.2 (declareType_enters run).grown.moreTypes⟩
    cases hp
    exact holds.2

end Binding

/-! ## Resolving -/

/-- Looking up a superclass keeps all handles in range, and the one that is found is. -/
theorem resolveSuperclass_inRange (name : String) {s : Binding.State} (inRange : s.table.InRange) :
    (Binding.resolveSuperclass name s).2.table.InRange ∧
      (Binding.resolveSuperclass name s).1.index <
        (Binding.resolveSuperclass name s).2.table.types.size := by
  rcases resolveSuperclass_finds name s with ⟨id, known, found⟩ | interned
  · rw [found]
    exact ⟨inRange, known⟩
  · rw [interned]
    exact inRange.internClass name

theorem BindingTable.admitsLocals_inRange : AdmitsLocals BindingTable.InRange :=
  fun t _ _ _ inRange => inRange.addVariable (BindingTable.knows_none t)

/-- A head whose superclass clause has no handle is resolved in range. -/
theorem TypeHead.resolvable_inRange {h : TypeHead}
    (free : ∀ c, h.superclass = some c → c.binding = none) :
    h.Resolvable BindingTable.InRange True := by
  refine ⟨fun _ => trivial, fun id _ => TypeHead.resolveSuperclass_yields
    fun c written s inRange => ?_⟩
  have found := resolveSuperclass_inRange c.name inRange
  rw [superclassOf, free c written]
  unfold Records
  split
  · rename_i set
    exact found.1.setSuperclass found.2 set
  · trivial

/-- Resolving types whose superclass clauses have no handles keeps the types in range. -/
theorem resolveTypes_inRange {ds ds' : List TypeDecl} {s s' : Binding.State}
    (free : ∀ d ∈ ds.flatMap TypeDecl.preorder, ∀ c, d.head.superclass = some c → c.binding = none)
    (inRange : s.table.InRange) (run : (ds.mapM TypeDecl.resolve).run s = (.ok ds', s')) :
    s'.table.InRange := by
  have same : (ds.flatMap TypeDecl.preorder).Perm (ds.flatMap TypeDecl.declarations) :=
    List.Perm.flatMap_left ds fun d _ => d.preorder_perm
  exact ((resolveTypes_yields BindingTable.admitsLocals_inRange ds fun x hx =>
    TypeHead.resolvable_inRange (free x (same.mem_iff.mpr hx))).of_ok inRange run).2

end ClassInit
