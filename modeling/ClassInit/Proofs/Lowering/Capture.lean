import ClassInit.Proofs.Lowering.Splicing

/-!
# Names in spliced statements

A simple name of a field that is spliced into a constructor is looked up there among the parameters
of that constructor as well. It means the same field as before exactly if no parameter has its name,
and the field is what the name means outside all bodies (`CompilationUnit.lower_splices`). A
parameter with the name of a field takes its place (`CompilationUnit.lower_splices_captured`).
-/

set_option autoImplicit false

namespace ClassInit

open Binding

theorem BindingTable.SameFields.of_grows {t t' : BindingTable} (grown : t.Grows t') :
    t.SameFields t' := by
  refine ⟨grown.sameTypes, ?_⟩
  rw [grown.sameVariables]

namespace Lowering

/-! ## Names in instance lists -/

/-- The use is the name of a field of the type, as the target of the assignment of its initial
value. -/
def AssignsField (d : TypeDecl) (o : NameUse) : Prop :=
  ∃ f, .field f ∈ d.members ∧ ∃ g ∈ f.fragments, o = ⟨g.name, g.binding, []⟩

theorem declares_eq_nil {s : Stmt} (none : declaresName s = false) : s.declares = [] := by
  cases s <;> first | rfl | cases none

/-- Statements that declare nothing all see the same scope. -/
theorem usesOf_eq_flatMap {ss : List Stmt} (none : ss.any declaresName = false) (env : Scope) :
    Stmt.usesOf env ss = ss.flatMap (Stmt.uses env) := by
  induction ss with
  | nil => rfl
  | cons s ss ih =>
    obtain ⟨first, rest⟩ := Bool.or_eq_false_iff.mp none
    rw [Stmt.usesOf, declares_eq_nil first, List.nil_append, ih rest, List.flatMap_cons]

theorem blockInit_uses (b : Block) :
    (blockInit b).flatMap (Stmt.uses []) = Stmt.usesOf [] b.statements := by
  obtain ⟨i, ss⟩ := b
  unfold blockInit
  split
  · rw [List.flatMap_singleton]
    rfl
  · rename_i plain
    exact (usesOf_eq_flatMap (Bool.eq_false_iff.mpr plain) []).symm

variable {t : BindingTable} {encoding : LiteralEncoding} {isInterface once : Bool}

/-- A name in an instance list stands in a member, or it is the target of an assignment that is
made. -/
theorem use_of_mem_initList {d : TypeDecl} {o : NameUse}
    (used : o ∈ (initList t encoding isInterface once d.members).flatMap (Stmt.uses [])) :
    AssignsField d o ∨ ∃ m ∈ d.members, o ∈ m.uses := by
  obtain ⟨s, hs, used⟩ := List.mem_flatMap.mp used
  rcases exists_of_mem_initList hs with ⟨f, hf, g, hg, e, initializer, rfl⟩ | ⟨i, hi, -, hs⟩
  · -- The target of the assignment is new, and the names in the value stand in the fragment.
    rcases List.mem_cons.mp used with rfl | used
    · exact .inl ⟨f, hf, g, hg, rfl⟩
    · refine .inr ⟨_, hf, ?_⟩
      obtain ⟨x, hx, rfl⟩ := List.mem_map.mp used
      refine List.mem_map.mpr ⟨x, List.mem_flatMap.mpr ⟨g, hg, ?_⟩, rfl⟩
      rw [Fragment.names, initializer]
      exact hx
  · have used := List.mem_flatMap.mpr ⟨s, hs, used⟩
    rw [blockInit_uses] at used
    exact .inr ⟨_, hi, used⟩

end Lowering

/-! ## Looking names up among parameters -/

section

variable {ps : List Parameter} {name : String}

/-- A name that no parameter has is not declared by them. -/
theorem lookup_parameters_eq_none (bound : ∀ p ∈ ps, ∃ v, p.binding = some v) :
    (latestFirst Parameter.declares ps).lookup name = none ↔ ∀ p ∈ ps, p.name ≠ name := by
  rw [List.lookup_eq_none_iff]
  constructor
  · intro absent p hp same
    obtain ⟨v, bound⟩ := bound p hp
    have declared : (name, v) ∈ latestFirst Parameter.declares ps :=
      mem_latestFirst.mpr ⟨p, hp, mem_declares.mpr ⟨bound, same⟩⟩
    exact absurd (absent _ declared) (by simp)
  · intro differ x hx
    obtain ⟨p, hp, declared⟩ := mem_latestFirst.mp hx
    have same := (mem_declares.mp declared).2
    simpa [same] using (differ p hp).symm

/-- A name among parameters means one of them. -/
theorem lookup_parameters_isLocal {t : BindingTable}
    (locals : ∀ p ∈ ps, ∃ v, p.binding = some v ∧ t.IsLocal v) {w : VariableId}
    (found : (latestFirst Parameter.declares ps).lookup name = some w) : t.IsLocal w := by
  obtain ⟨first, rest, all, -⟩ := List.lookup_eq_some_iff.mp found
  have listed : (name, w) ∈ latestFirst Parameter.declares ps := by
    rw [all]
    exact List.mem_append_right _ List.mem_cons_self
  obtain ⟨p, hp, declared⟩ := mem_latestFirst.mp listed
  obtain ⟨v, bound, isLocal⟩ := locals p hp
  rw [(mem_declares.mp declared).1] at bound
  cases bound
  exact isLocal

/-- A name that no local of its statement has means a field in a constructor if no parameter takes
its place. -/
theorem Binding.Site.simple?_eq_field {c : Site} {v : VariableId}
    (locals : ∀ p ∈ ps, ∃ v, p.binding = some v ∧ c.table.IsLocal v) (isField : c.table.IsField v)
    {own : Scope} (free : own.lookup name = none) :
    c.simple? (own ++ latestFirst Parameter.declares ps) name = some v ↔
      (∀ p ∈ ps, p.name ≠ name) ∧ c.field? name = some v := by
  rw [Site.simple?, List.lookup_append, free, Option.none_or, ← lookup_parameters_eq_none
    fun p hp =>
    (locals p hp).imp fun _ => And.left]
  cases found : (latestFirst Parameter.declares ps).lookup name with
  | none => simp
  | some w =>
    rw [Option.some_or]
    constructor
    · intro same
      cases same
      exact absurd isField (lookup_parameters_isLocal locals found).not_isField
    · rintro ⟨absent, -⟩
      cases absent

end

/-! ## Units -/

/-- The use of the name of the field `v` of a unit in a statement that is spliced into a constructor
of the type. `t` is the table of the bound unit, and `t'` that of the lowered one. -/
structure Lowering.FieldUse (t t' : BindingTable) (types : List TypeId) (d : TypeDecl)
    (ps : List Parameter) (o : NameUse) (v : VariableId) : Prop where
  /-- No local of the statement has the name. -/
  free : o.scope.lookup o.identifier = none
  /-- What the name means in the constructor. -/
  means : (Site.mk t' types).simple? (o.scope ++ latestFirst Parameter.declares ps) o.identifier =
    some v ↔
    (∀ p ∈ ps, p.name ≠ o.identifier) ∧ (Site.mk t types).field? o.identifier = some v
  /-- Why the name has the handle of the field. -/
  meant : AssignsField d o ∨ ∃ t₁ : BindingTable, t₁.ResolvesTo t ∧
    (Site.mk t₁ types).field? o.identifier = some v

/-- In a unit without handles that is bound, gets its constants recorded and is lowered, every type
comes from a type of the bound unit that stood inside the same types. If that is a class or enum,
each constructor of it that initializes instances has the instance list spliced in. Take a simple
name with the handle of a field in a statement that is spliced in. No local of the statement has the
name. Looked up in the constructor, which means first among the locals of the statement and the
parameters, then among the fields of the types around, it means that field exactly if no parameter
has the name and the field is what the name means outside all bodies once the unit is bound. And it
is the name of a field that is assigned its initial value, or it meant the field inside the same
types when it was resolved. -/
theorem CompilationUnit.lower_splices {u : CompilationUnit} {t : BindingTable}
    {options : Lowering.Options} {bindStats : Binding.Stats} {n : Nat} {stats : Lowering.Stats}
    (free : u.Unresolved) (bound : (u.bind t).result = .ok bindStats)
    (constants : ((u.bind t).table.bindConstants (u.bind t).unit).1 = .ok n)
    (lowered : ((u.bind t).unit.lower (u.knownTable t) options).result = .ok stats)
    {types : List TypeId} {d' : TypeDecl}
    (stands : ((u.bind t).unit.lower (u.knownTable t) options).unit.Stands types d') :
    ∃ d type descriptor, (u.bind t).unit.Stands types d ∧ d.head.binding = some type ∧
      (u.knownTable t).typeAt type = .ok descriptor ∧
      (descriptor.isInterface = false → ∀ c ∈ d'.constructors, c.isDesignated = true →
        (∃ ss, Lowering.Spliced
          (Lowering.initList (u.knownTable t) options.literalEncoding false false d.members) ss
            c.statements) ∧
        ∀ ss, Lowering.Spliced
            (Lowering.initList (u.knownTable t) options.literalEncoding false false d.members) ss
              c.statements →
          ∀ s ∈ ss, ∀ o ∈ s.uses [], ∀ v, o.handle = some v → splitLast? o.identifier = none →
            ((u.bind t).unit.lower (u.knownTable t) options).table.IsField v →
              Lowering.FieldUse (u.bind t).table
                ((u.bind t).unit.lower (u.knownTable t) options).table types d
                c.head.parameters o v) := by
  obtain ⟨d, stood, origin⟩ := lower_stands lowered stands
  obtain ⟨type, descriptor, handle, described, splices⟩ := origin.spliced
  refine ⟨d, type, descriptor, stood, handle, described, fun isClass c hc designated => ?_⟩
  obtain ⟨present, parameters⟩ := splices isClass c hc designated
  refine ⟨present, fun ss spliced s hs o ho v bound' simple isField => ?_⟩
  have names := bind_names free bound stood
  have same : (u.bind t).table.SameFields ((u.bind t).unit.lower (u.knownTable t) options).table :=
    (BindingTable.SameFields.of_bindConstants constants).trans (.of_grows (lower_grows _ _ _))
  have listed := spliced.uses_eq [] ▸ List.mem_flatMap.mpr ⟨s, hs, ho⟩
  -- The use is that of an assignment of an initial value, which has no locals around it, or one in
  -- a member of the bound type.
  have own : o.scope.lookup o.identifier = none ∧ (Lowering.AssignsField d o ∨
      ∃ t₁ : BindingTable, t₁.ResolvesTo (u.bind t).table ∧
        (Site.mk t₁ types).field? o.identifier = some v) := by
    rcases Lowering.use_of_mem_initList listed with assigns | ⟨m, hm, used⟩
    · obtain ⟨f, hf, g, hg, rfl⟩ := assigns
      exact ⟨rfl, .inl ⟨f, hf, g, hg, rfl⟩⟩
    · rcases (names m hm).uses o used v bound' simple with isLocal | ⟨absent, meant⟩
      · exact absurd isField (same.isLocal isLocal).not_isField
      · exact ⟨absent, .inr meant⟩
  refine ⟨own.1, ?_, own.2⟩
  rw [← same.field? types]
  refine Site.simple?_eq_field (fun p hp => ?_) isField own.1
  obtain ⟨m, hm, hp⟩ := parameters p hp
  obtain ⟨w, bound, isLocal⟩ := (names m hm).parameters p hp
  exact ⟨w, bound, same.isLocal isLocal⟩

namespace Lowering

/-- A use in every instance list of a unit without nested types is in the statements as which one is
spliced in. -/
theorem Spliced.exists_use {u : CompilationUnit} {t : BindingTable} {encoding : LiteralEncoding}
    {o : NameUse} (flat : ∀ d ∈ u.types, d.inner.isEmpty = true)
    (used : ∀ d ∈ u.types, o ∈ (initList t encoding false false d.members).flatMap (Stmt.uses []))
    {types : List TypeId} {d : TypeDecl} (stands : u.Stands types d) {ss body : List Stmt}
    (spliced : Spliced (initList t encoding false false d.members) ss body) :
    ∃ s ∈ ss, o ∈ s.uses [] := by
  obtain ⟨d₀, hd₀, stands⟩ := stands
  cases stands with
  | self handle =>
    have listed := used d hd₀
    rw [← spliced.uses_eq] at listed
    exact List.mem_flatMap.mp listed
  | inside handle listed stands =>
    rw [List.isEmpty_iff.mp (flat d₀ hd₀)] at listed
    exact absurd listed List.not_mem_nil

theorem isInterface_of_stands {u : CompilationUnit} {t : BindingTable} {id type : TypeId}
    {outer : List TypeId} {d : TypeDecl} (stands : u.Stands (id :: outer) d)
    (handle : d.head.binding = some type) {descriptor : TypeDescriptor}
    (described : t.typeAt type = .ok descriptor) {b : Bool}
    (kind : (t.typeAt id).toOption.map TypeDescriptor.isInterface = some b) :
    descriptor.isInterface = b := by
  obtain rfl : type = id := Option.some.inj (handle.symm.trans stands.binding)
  rw [described] at kind
  exact Option.some.inj kind

/-- `class A { int x = 1; A(int p) { } }`, with another name for `p`. -/
def constructorUnit (parameter : String) : CompilationUnit :=
  let n : NodeInfo := ⟨.unassigned, .dummy⟩
  ⟨"A.java", none, [⟨⟨.unassigned, .dummy, .classType, "A", .empty, none, none, []⟩,
    [.field ⟨.unassigned, .dummy, .empty, .primitive .int,
        [⟨.dummy, "x", some (.literal ⟨.unassigned, .dummy, none⟩ (.int 1)), none⟩]⟩,
      .method
        ⟨⟨.unassigned, .dummy, "A", .empty, .void, [⟨parameter, .primitive .int, none⟩], true, none,
          false⟩, some ⟨n, []⟩⟩]⟩], .initial⟩

theorem constructorUnit_unresolved (parameter : String) :
    (constructorUnit parameter).Unresolved := by
  refine List.forall_mem_singleton.mpr (TypeDecl.unresolved_iff.mpr ?_)
  refine List.forall_mem_cons.mpr ⟨?_, List.forall_mem_singleton.mpr ?_⟩
  · rw [Member.Unresolved]
    exact List.forall_mem_singleton.mpr fun x hx => absurd hx List.not_mem_nil
  · rw [Member.Unresolved, Stmt.UnresolvedAll]
    exact ⟨List.forall_mem_singleton.mpr rfl, trivial⟩

/-- The unit is bound and lowered, and a statement that is spliced into a constructor has a simple
name with the handle of the field; looked up in the constructor the name means the variable. -/
structure SplicesAs (u : CompilationUnit) (field meaning : VariableId) : Prop where
  unresolved : u.Unresolved
  bound : ∃ stats, (u.bind .new).result = .ok stats
  constants : ∃ n, ((u.bind .new).table.bindConstants (u.bind .new).unit).1 = .ok n
  lowered : ∃ stats, ((u.bind .new).unit.lower (u.knownTable .new) .standard).result = .ok stats
  isField : ((u.bind .new).unit.lower (u.knownTable .new) .standard).table.IsField field
  use : ∃ types d d', (u.bind .new).unit.Stands types d ∧
    ((u.bind .new).unit.lower (u.knownTable .new) .standard).unit.Stands types d' ∧
    ∃ c ∈ d'.constructors, c.isDesignated = true ∧ ∃ ss, Spliced (initList (u.knownTable .new)
        Options.standard.literalEncoding false false d.members) ss c.statements ∧
      ∃ s ∈ ss, ∃ o ∈ s.uses [], o.handle = some field ∧ splitLast? o.identifier = none ∧
        (Site.mk ((u.bind .new).unit.lower (u.knownTable .new) .standard).table types).simple?
          (o.scope ++ latestFirst Parameter.declares c.head.parameters) o.identifier = some meaning

end Lowering

open Lowering

/-- The constructor's parameter has another name, so the name of the field means the field there. -/
theorem CompilationUnit.lower_splices_sample : SplicesAs (constructorUnit "n") ⟨0⟩ ⟨0⟩ := by
  have free := constructorUnit_unresolved "n"
  obtain ⟨bindStats, bound⟩ : ∃ stats, ((constructorUnit "n").bind .new).result = .ok stats :=
    exists_eq_ok (by decide +kernel)
  obtain ⟨n, constants⟩ : ∃ n, (((constructorUnit "n").bind .new).table.bindConstants
      ((constructorUnit "n").bind .new).unit).1 = .ok n := exists_eq_ok (by decide +kernel)
  obtain ⟨stats, lowered⟩ : ∃ stats, (((constructorUnit "n").bind .new).unit.lower
      ((constructorUnit "n").knownTable .new) .standard).result = .ok stats :=
        exists_eq_ok (by decide +kernel)
  have isField : (((constructorUnit "n").bind .new).unit.lower
      ((constructorUnit "n").knownTable .new) .standard).table.IsField ⟨0⟩ :=
    Option.map_eq_some_iff.mp (by decide +kernel)
  obtain ⟨d', hd', handle, c, hc, designated, differ⟩ :
      ∃ d' ∈ (((constructorUnit "n").bind .new).unit.lower
          ((constructorUnit "n").knownTable .new) .standard).unit.types,
        d'.head.binding = some ⟨2⟩ ∧ ∃ c ∈ d'.constructors, c.isDesignated = true ∧
          ∀ p ∈ c.head.parameters, p.name ≠ "x" := by
    decide +kernel
  obtain ⟨d, type, descriptor, stands, handled, described, splices⟩ :=
    CompilationUnit.lower_splices free bound constants lowered ⟨d', hd', .self handle⟩
  have isClass := isInterface_of_stands stands handled described (b := false) (by decide +kernel)
  obtain ⟨⟨ss, spliced⟩, names⟩ := splices isClass c hc designated
  obtain ⟨s, hs, used⟩ : ∃ s ∈ ss, (⟨"x", some ⟨0⟩, []⟩ : NameUse) ∈ s.uses [] :=
    spliced.exists_use (by decide +kernel) (by decide +kernel) stands
  have means := (names ss spliced s hs _ used ⟨0⟩ rfl (by decide +kernel) isField).means
  exact ⟨free, ⟨_, bound⟩, ⟨_, constants⟩, ⟨_, lowered⟩, isField, _, d, d', stands,
    ⟨d', hd', .self handle⟩, c, hc,
    designated, ss, spliced, s, hs, _, used,
      rfl, by decide +kernel, means.mpr ⟨differ, by decide +kernel⟩⟩

/-- The constructor's parameter has the name of the field, so the name of the field means the
parameter there. -/
theorem CompilationUnit.lower_splices_captured : SplicesAs (constructorUnit "x") ⟨0⟩ ⟨1⟩ := by
  obtain ⟨stats, lowered⟩ : ∃ stats, (((constructorUnit "x").bind .new).unit.lower
      ((constructorUnit "x").knownTable .new) .standard).result = .ok stats :=
        exists_eq_ok (by decide +kernel)
  obtain ⟨d', hd', handle, c, hc, designated, declared⟩ :
      ∃ d' ∈ (((constructorUnit "x").bind .new).unit.lower
          ((constructorUnit "x").knownTable .new) .standard).unit.types,
        d'.head.binding = some ⟨2⟩ ∧ ∃ c ∈ d'.constructors, c.isDesignated = true ∧
          latestFirst Parameter.declares c.head.parameters = [("x", ⟨1⟩)] := by
    decide +kernel
  have stands' : (((constructorUnit "x").bind .new).unit.lower
      ((constructorUnit "x").knownTable .new) .standard).unit.Stands [⟨2⟩] d' :=
        ⟨d', hd', .self handle⟩
  obtain ⟨d, stands, origin⟩ := lower_stands lowered stands'
  obtain ⟨type, descriptor, handled, described, splices⟩ := origin.spliced
  have isClass := isInterface_of_stands stands handled described (b := false) (by decide +kernel)
  obtain ⟨⟨ss, spliced⟩, -⟩ := splices isClass c hc designated
  obtain ⟨s, hs, used⟩ : ∃ s ∈ ss, (⟨"x", some ⟨0⟩, []⟩ : NameUse) ∈ s.uses [] :=
    spliced.exists_use (by decide +kernel) (by decide +kernel) stands
  refine ⟨constructorUnit_unresolved "x", exists_eq_ok (by decide +kernel),
    exists_eq_ok (by decide +kernel),
    ⟨_, lowered⟩, Option.map_eq_some_iff.mp (by decide +kernel), _, d, d', stands, stands', c, hc,
    designated,
    ss, spliced, s, hs, _, used, rfl, by decide +kernel, ?_⟩
  rw [declared]
  rfl

end ClassInit
