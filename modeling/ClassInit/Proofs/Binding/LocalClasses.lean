import ClassInit.Proofs.Binding.FieldNames
import ClassInit.Proofs.Binding.Registration
import Mathlib.Data.List.Pairwise

/-!
# Names in local classes

In a member of a local class a simple name means, apart from the member's own locals, first the
locals around the class, and only then the fields of the class and of the types around it. A field
that the class declares is thus hidden by every parameter or local of its name that is in scope at
the declaration of the class (`CompilationUnit.bind_localClass`).
-/

set_option autoImplicit false

namespace ClassInit

open Binding

/-! ## Standing in a type -/

/-- The walk through a type goes through the types inside its members. -/
theorem TypeDecl.preorder_subset_of_innerIn {d c : TypeDecl} {m : Member} {scope : Scope}
    (member : m ∈ d.members) (listed : (scope, c) ∈ m.innerIn) : c.preorder ⊆ d.preorder :=
  TypeDecl.preorder_subset_of_inner
    (TypeDecl.mem_inner.mpr ⟨m, member, Member.mem_inner_of_innerIn listed⟩)

namespace TypeDecl.StandsIn

variable {env env' scope : Scope} {outer types : List TypeId} {d x c : TypeDecl}

/-- The walk through a type goes through the types that stand in it. -/
theorem preorder_subset (stands : TypeDecl.StandsIn env outer d env' types x) :
    x.preorder ⊆ d.preorder := by
  induction stands with
  | self => exact List.Subset.refl _
  | inside _ member listed _ ih =>
    exact List.Subset.trans ih (TypeDecl.preorder_subset_of_innerIn member listed)

/-- A type directly inside a member of a type that stands in a type. -/
theorem innermost (stands : TypeDecl.StandsIn env outer d env' types x) {m : Member}
    (member : m ∈ x.members) (listed : (scope, c) ∈ m.innerIn) {id : TypeId}
    (handle : c.head.binding = some id) :
    TypeDecl.StandsIn env outer d (scope ++ env') (id :: types) c := by
  induction stands with
  | self handle' => exact .inside handle' member listed (.self handle)
  | inside handle' member' listed' _ ih => exact .inside handle' member' listed' (ih member)

end TypeDecl.StandsIn

/-! ## Fields that a table finds -/

namespace BindingTable

variable {t : BindingTable} {id : TypeId} {name : String} {v : VariableId}

/-- The entry under the handle of a declared field. -/
theorem declaredField_eq_some (found : t.declaredField id name = some v) :
    ∃ b, t.vars[v.index]? = some b ∧ b.isField = true ∧ b.declaringType = some id ∧
      b.name = name := by
  obtain ⟨i, first, rfl⟩ := Option.map_eq_some_iff.mp found
  obtain ⟨below, holds, -⟩ := Array.findIdx?_eq_some_iff_getElem.mp first
  simp only [Bool.and_eq_true, beq_iff_eq] at holds
  exact ⟨_, Array.getElem?_eq_getElem below, holds.1.1, holds.1.2, holds.2⟩

/-- A field that has an entry is found, or one before it. -/
theorem exists_declaredField {b : VariableBinding} (entry : t.vars[v.index]? = some b)
    (isField : b.isField = true) (owner : b.declaringType = some id) :
    ∃ w, t.declaredField id b.name = some w := by
  refine Option.ne_none_iff_exists'.mp fun none => ?_
  have absent :=
    Array.findIdx?_eq_none_iff.mp (Option.map_eq_none_iff.mp none) b (Array.mem_of_getElem? entry)
  rw [isField, owner] at absent
  simp at absent

/-- The field that a type declares itself is what its name means right inside the type. -/
theorem field?_of_declared (found : t.declaredField id name = some v) (types : List TypeId) :
    (Site.mk t (id :: types)).field? name = some v := by
  have own : t.findField id name = some v := by
    unfold findField fieldWithin
    rw [found]
  rw [Site.field?, List.findSome?_cons_of_isSome (by rw [own]; rfl)]
  exact own

end BindingTable

namespace CompilationUnit.Registers

variable {u u' : CompilationUnit} {t t' : BindingTable} {stats : Binding.Stats}

/-- No two types have one handle. -/
theorem eq_of_binding (registered : u.Registers t stats u' t') {d e : TypeDecl}
    (hd : d ∈ u'.preorder) (he : e ∈ u'.preorder) {id : TypeId} (bound : d.head.binding = some id)
    (bound' : e.head.binding = some id) :
    d = e := by
  have distinct := List.pairwise_filterMap.mp registered.distinctTypes
  have apart : Std.Symm fun a b : TypeDecl =>
      ∀ n, a.head.key = some n → ∀ n', b.head.key = some n' → n ≠ n' :=
    ⟨fun _ _ apart n hn n' hn' => (apart n' hn' n hn).symm⟩
  by_contra differ
  exact distinct.forall hd he differ id.index (TypeHead.key_of_binding bound) id.index
    (TypeHead.key_of_binding bound') rfl

/-- A field of a type is found in the type, or one of its name before it. -/
theorem exists_declaredField (registered : u.Registers t stats u' t') {d : TypeDecl}
    (hd : d ∈ u'.preorder) {id : TypeId} (bound : d.head.binding = some id) {f : VariableSlot}
    (hf : f ∈ d.contents.fields) :
    ∃ v, t'.declaredField id f.name = some v := by
  obtain ⟨id', descriptor, bound', -, entries⟩ := registered.entries d hd
  rw [bound] at bound'
  cases bound'
  obtain ⟨v, -, entry⟩ := entries.fields f hf
  exact BindingTable.exists_declaredField entry rfl rfl

/-- The field that is found in a type is one that the type declares, if no old entry is about types
that the table does not have. -/
theorem declaredField (registered : u.Registers t stats u' t') (inRange : t.InRange) {d : TypeDecl}
    (hd : d ∈ u'.preorder) {id : TypeId} (bound : d.head.binding = some id) {name : String}
    {v : VariableId} (found : t'.declaredField id name = some v) :
    ∃ f ∈ d.contents.fields, f.name = name ∧ f.binding = some v := by
  obtain ⟨b, entry, isField, owner, named⟩ := BindingTable.declaredField_eq_some found
  have below := (Array.getElem?_eq_some_iff.mp entry).1
  have size := registered.variableSize
  -- Old entries are about old types, and of the new ones those of locals are no fields.
  have new : t.vars.size ≤ v.index := by
    by_contra old
    have entry' := getElem?_of_prefix registered.kept.vars
      (Array.getElem?_eq_getElem (Nat.lt_of_not_le old))
    rw [entry] at entry'
    have known := inRange.vars b (Array.mem_of_getElem? (Option.some.inj entry' ▸
      Array.getElem?_eq_getElem (Nat.lt_of_not_le old))) id owner
    exact absurd known (Nat.not_lt_of_le (registered.newTypes d hd id bound))
  have early : v.index < t.vars.size + stats.fields := by
    by_contra late
    have given : v.index ∈ List.range' (t.vars.size + stats.fields) stats.locals :=
      List.mem_range'_1.mpr ⟨Nat.le_of_not_lt late, by omega⟩
    obtain ⟨l, hl, key⟩ := List.mem_filterMap.mp (registered.locals.once.mem_iff.mpr given)
    obtain ⟨e, he, hl⟩ := List.mem_flatMap.mp hl
    obtain ⟨w, local', entry'⟩ := registered.localEntries e he l hl
    obtain ⟨w', local'', same⟩ := Option.map_eq_some_iff.mp key
    rw [local'] at local''
    cases local''
    rw [same, entry] at entry'
    rw [Option.some.inj entry'] at isField
    cases isField
  have given : v.index ∈ List.range' t.vars.size stats.fields :=
    List.mem_range'_1.mpr ⟨new, early⟩
  obtain ⟨f, hf, key⟩ := List.mem_filterMap.mp (registered.fields.once.mem_iff.mpr given)
  obtain ⟨e, he, hf⟩ := List.mem_flatMap.mp hf
  obtain ⟨⟨i⟩, field, same⟩ := Option.map_eq_some_iff.mp key
  obtain rfl : i = v.index := same
  obtain ⟨id', descriptor, bound', -, entries⟩ := registered.entries e he
  obtain ⟨w, field', entry'⟩ := entries.fields f hf
  rw [field] at field'
  cases field'
  rw [entry] at entry'
  obtain rfl := Option.some.inj entry'
  obtain rfl : id' = id := Option.some.inj owner
  obtain rfl := registered.eq_of_binding hd he bound bound'
  exact ⟨f, hf, named, field⟩

end CompilationUnit.Registers

/-! ## Local classes -/

namespace CompilationUnit

variable {u : CompilationUnit} {t : BindingTable} {stats : Binding.Stats}

/-- In a unit without handles that is bound, take a local class of a member of a type, wherever the
type stands, and a simple name in a member of the class for which that member has no local in scope.
If the class declares a field of that name, then the name has the handle of the first local of that
name around the class, where there is one, and else of the field that the table finds in the class:
one that the class declares, if no old entry of the table is about types that the table does not
have. -/
theorem bind_localClass (free : u.Unlabelled) (unresolved : u.Unresolved)
    (success : (u.bind t).result = .ok stats) {env scope : Scope} {types : List TypeId}
    {e c : TypeDecl} (stands : (u.bind t).unit.StandsIn env types e) {m : Member}
    (hm : m ∈ e.members) (listed : (scope, c) ∈ m.localTypesIn) {n : Member} (hn : n ∈ c.members)
    {o : NameUse} (ho : o ∈ n.uses) (simple : splitLast? o.identifier = none)
    (own : o.scope.lookup o.identifier = none) {f : VariableSlot} (hf : f ∈ c.contents.fields)
    (named : f.name = o.identifier) :
    (∀ v, (scope ++ env).lookup o.identifier = some v → o.handle = some v) ∧
      ((scope ++ env).lookup o.identifier = none → ∃ id v, c.head.binding = some id ∧
        o.handle = some v ∧
        (u.bind t).table.declaredField id o.identifier = some v ∧
        (t.InRange → ∃ g ∈ c.contents.fields, g.name = o.identifier ∧ g.binding = some v)) := by
  have registered := bind_registers free success
  obtain ⟨d, hd, stands⟩ := stands
  obtain ⟨start, found⟩ := bind_lookedUp unresolved success d hd
  have inside : (scope, c) ∈ m.innerIn := List.mem_append_right _ listed
  have hc : c ∈ (u.bind t).unit.preorder := List.mem_flatMap.mpr ⟨d, hd, stands.preorder_subset
    (TypeDecl.preorder_subset_of_innerIn hm inside c.mem_preorder_self)⟩
  obtain ⟨⟨id, bound, -⟩, -, -⟩ := registered.labelled.types c hc
  obtain ⟨-, t₁, -, leads, handle⟩ :=
    (found _ _ _ (stands.innermost hm inside bound) n hn).uses o ho
  have resolves : t₁.ResolvesTo (u.bind t).table := leads
  -- The member has no local of the name, so that those around the class come first.
  have means : o.handle =
      ((scope ++ env).lookup o.identifier).or ((Site.mk t₁ (id :: types)).field? o.identifier) := by
    rw [handle, Site.means?, simple]
    show ((o.scope ++ (scope ++ env)).lookup o.identifier).or _ = _
    rw [List.lookup_append, own, Option.none_or]
  refine ⟨fun v around => ?_, fun none => ?_⟩
  · rw [means, around, Option.some_or]
  · obtain ⟨v, declared⟩ := registered.exists_declaredField hc bound hf
    rw [named] at declared
    have before : t₁.declaredField id o.identifier = some v := by
      rw [← resolves.adds.declaredField]
      exact declared
    refine ⟨id, v, bound, ?_, declared, fun inRange =>
      registered.declaredField inRange hc bound declared⟩
    rw [means, none, Option.none_or]
    exact BindingTable.field?_of_declared before types

/-- `class A { void m(int parameter) { class L { int x; int get() { return x; } } } }`. -/
def localClassUnit (parameter : String) : CompilationUnit :=
  let n : NodeInfo := ⟨.unassigned, .dummy⟩
  let head (name : String) : TypeHead :=
    ⟨.unassigned, .dummy, .classType, name, .empty, none, none, []⟩
  let method (name : String) (parameters : List Parameter) : MethodHead :=
    ⟨.unassigned, .dummy, name, .empty, .void, parameters, false, none, false⟩
  ⟨"A.java", none, [⟨head "A", [.method ⟨method "m" [⟨parameter, .primitive .int, none⟩], some ⟨n,
    [.localType n ⟨head "L",
      [.field ⟨.unassigned, .dummy, .empty, .primitive .int, [⟨.dummy, "x", none, none⟩]⟩,
        .method ⟨method "get" [], some ⟨n,
          [.returnValue n (some (.name ⟨.unassigned, .dummy, none⟩ "x" none))]⟩⟩]⟩]⟩⟩]⟩], .initial⟩

theorem localClassUnit_unresolved (parameter : String) : (localClassUnit parameter).Unresolved := by
  refine List.forall_mem_singleton.mpr
    (TypeDecl.unresolved_iff.mpr (List.forall_mem_singleton.mpr ?_))
  rw [Member.Unresolved, Stmt.UnresolvedAll, Stmt.Unresolved]
  refine ⟨List.forall_mem_singleton.mpr rfl, TypeDecl.unresolved_iff.mpr ?_, trivial⟩
  refine List.forall_mem_cons.mpr ⟨?_, List.forall_mem_singleton.mpr ?_⟩
  · rw [Member.Unresolved]
    exact List.forall_mem_singleton.mpr fun _ hu => absurd hu List.not_mem_nil
  · rw [Member.Unresolved, Stmt.UnresolvedAll, Stmt.Unresolved]
    exact ⟨fun _ hp => absurd hp List.not_mem_nil, List.forall_mem_singleton.mpr rfl, trivial⟩

/-- The unit has no handles and is bound with the table; then a simple name in a member of a local
class of a method has a handle, no local of that member is in scope there with its name, and the
class declares a field of its name. -/
structure NamesLocally (t : BindingTable) (u : CompilationUnit) (handle field : VariableId) :
    Prop where
  unlabelled : u.Unlabelled
  unresolved : u.Unresolved
  bound : ∃ stats, (u.bind t).result = .ok stats
  use : ∃ types e scope c, (u.bind t).unit.StandsIn [] types e ∧
    ∃ m ∈ e.members, (scope, c) ∈ m.localTypesIn ∧
    ∃ n ∈ c.members, ∃ o ∈ n.uses, splitLast? o.identifier = none ∧
    o.scope.lookup o.identifier = none ∧
      o.handle = some handle ∧ ∃ f ∈ c.contents.fields, f.name = o.identifier ∧
      f.binding = some field

set_option synthInstance.maxSize 256 in
/-- The method's parameter has another name, so that the name means the field of the local class. -/
theorem bind_localClass_sample : NamesLocally .new (localClassUnit "n") ⟨0⟩ ⟨0⟩ := by
  have free : (localClassUnit "n").Unlabelled := by decide +kernel
  have unresolved := localClassUnit_unresolved "n"
  obtain ⟨stats, success⟩ : ∃ stats, ((localClassUnit "n").bind .new).result = .ok stats :=
    exists_eq_ok (by decide +kernel)
  obtain ⟨d, hd, handle, m, hm, ⟨scope, c⟩, listed, around, bound, ⟨n, hn, o, ho, name, own⟩, f, hf,
    named, field⟩ :
      ∃ d ∈ ((localClassUnit "n").bind .new).unit.types, d.head.binding = some ⟨2⟩ ∧
      ∃ m ∈ d.members,
        ∃ listed ∈ m.localTypesIn, listed.1 = [("n", ⟨1⟩)] ∧ listed.2.head.binding = some ⟨3⟩ ∧
          (∃ n ∈ listed.2.members, ∃ o ∈ n.uses, o.identifier = "x" ∧ o.scope = []) ∧
          ∃ f ∈ listed.2.contents.fields, f.name = "x" ∧ f.binding = some ⟨0⟩ := by
    decide +kernel
  have stands : ((localClassUnit "n").bind .new).unit.StandsIn [] [⟨2⟩] d := ⟨d, hd, .self handle⟩
  have simple : splitLast? o.identifier = none := by rw [name]; decide +kernel
  have local' : o.scope.lookup o.identifier = none := by rw [own]; rfl
  obtain ⟨id, v, bound', means, declared, -⟩ :=
    (bind_localClass free unresolved success stands hm listed hn ho simple local' hf
      (named.trans name.symm)).2 (by rw [name, show scope = _ from around]; rfl)
  rw [bound] at bound'
  cases bound'
  have first : ((localClassUnit "n").bind .new).table.declaredField ⟨3⟩ "x" = some ⟨0⟩ := by
    decide +kernel
  rw [name, first] at declared
  cases declared
  exact ⟨free, unresolved, ⟨stats, success⟩, _, d, scope, c, stands, m, hm, listed, n, hn, o, ho,
    simple, local', means, f, hf, named.trans name.symm, field⟩

/-- The types of a new table, and an entry for a field `x` of a type that does not exist yet. -/
def staleTable : BindingTable :=
  .load [] [⟨"x", .primitive .int, .empty, some ⟨3⟩, true, none⟩] []

/-- Where the method's parameter has the name of the field, the name means the parameter in the
local class; and where an old entry for a field of that name is about the type that the local class
becomes, the name means the old field. -/
theorem bind_localClass_hidden :
    NamesLocally .new (localClassUnit "x") ⟨1⟩ ⟨0⟩ ∧
      NamesLocally staleTable (localClassUnit "n") ⟨0⟩ ⟨1⟩ := by
  constructor
  · obtain ⟨d, hd, handle, m, hm, ⟨scope, c⟩, listed, ⟨n, hn, used⟩, f, hf, named, field⟩ :
        ∃ d ∈ ((localClassUnit "x").bind .new).unit.types, d.head.binding = some ⟨2⟩ ∧
        ∃ m ∈ d.members,
          ∃ listed ∈ m.localTypesIn,
          (∃ n ∈ listed.2.members, (⟨"x", some ⟨1⟩, []⟩ : NameUse) ∈ n.uses) ∧
            ∃ f ∈ listed.2.contents.fields, f.name = "x" ∧ f.binding = some ⟨0⟩ := by
      decide +kernel
    exact ⟨by decide +kernel, localClassUnit_unresolved "x", exists_eq_ok (by decide +kernel),
      _, d, scope, c, ⟨d, hd, .self handle⟩, m, hm, listed, n, hn, _,
      used, by decide +kernel, rfl, rfl, f, hf, named,
      field⟩
  · obtain ⟨d, hd, handle, m, hm, ⟨scope, c⟩, listed, ⟨n, hn, used⟩, f, hf, named, field⟩ :
        ∃ d ∈ ((localClassUnit "n").bind staleTable).unit.types, d.head.binding = some ⟨2⟩ ∧
        ∃ m ∈ d.members,
          ∃ listed ∈ m.localTypesIn,
          (∃ n ∈ listed.2.members, (⟨"x", some ⟨0⟩, []⟩ : NameUse) ∈ n.uses) ∧
            ∃ f ∈ listed.2.contents.fields, f.name = "x" ∧ f.binding = some ⟨1⟩ := by
      decide +kernel
    exact ⟨by decide +kernel, localClassUnit_unresolved "n", exists_eq_ok (by decide +kernel),
      _, d, scope, c, ⟨d, hd, .self handle⟩, m, hm, listed, n, hn, _,
      used, by decide +kernel, rfl, rfl, f, hf, named,
      field⟩

end CompilationUnit

end ClassInit
