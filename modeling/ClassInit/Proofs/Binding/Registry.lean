import ClassInit.Proofs.Binding.Failures
import ClassInit.Proofs.Binding.Labels
import Mathlib.Data.List.Perm.Subperm

/-!
# The entries of a unit

Declaring gives every type, field and method of a unit without handles an entry that tells what the
declaration says and in which type it stands.
-/

set_option autoImplicit false

namespace ClassInit

open Binding

/-! ## Entries -/

/-- The entry of a field of the type: in an interface-like type a field is public, static and
final. -/
def VariableSlot.fieldEntry (owner : TypeId) (isInterfaceLike : Bool) (f : VariableSlot) :
    VariableBinding :=
  ⟨f.name, f.type, if isInterfaceLike then f.modifiers.union .interfaceField else f.modifiers,
    some owner,
    true, none⟩

/-- The entry of a method or constructor of the type. -/
def MethodHead.entry (owner : TypeId) (h : MethodHead) : MethodBinding :=
  ⟨recordedName h, owner, h.modifiers, h.returnType, h.parameters.map (·.type), h.isConstructor,
    h.isSynthetic⟩

/-- The table has the entry of a field of the type. -/
def VariableSlot.HasField (t : BindingTable) (owner : TypeId) (isInterfaceLike : Bool)
    (f : VariableSlot) : Prop :=
  ∃ v, f.binding = some v ∧ t.vars[v.index]? = some (f.fieldEntry owner isInterfaceLike)

/-- The table has the entry of a method of the type. -/
def MethodHead.HasMethod (t : BindingTable) (owner : TypeId) (h : MethodHead) : Prop :=
  ∃ id, h.binding = some id ∧ t.methods[id.index]? = some (h.entry owner)

/-- The table has the entry of a type that stands directly inside the type `outer`: its name is the
qualified one, perhaps with a number after it. -/
def TypeHead.HasType (t : BindingTable) (qualifier : Option String) (outer : Option TypeId)
    (h : TypeHead) : Prop :=
  ∃ id n superclass, h.binding = some id ∧ t.typeAt id =
    .ok ⟨BindingTable.candidateName (BindingTable.qualify qualifier h.name) n, h.kind, h.modifiers,
      superclass,
      outer⟩

/-- The table has entries for what stands directly in the type. -/
structure TypeDecl.HasMembers (t : BindingTable) (id : TypeId) (name : String) (d : TypeDecl) :
    Prop where
  fields : ∀ f ∈ d.contents.fields, f.HasField t id d.isInterfaceLike
  methods : ∀ h ∈ d.contents.methods, h.HasMethod t id
  inner : ∀ c ∈ d.inner, c.head.HasType t (some name) (some id)

/-- The type has an entry, and the table has entries for what stands directly in it. -/
def TypeDecl.HasEntries (t : BindingTable) (d : TypeDecl) : Prop :=
  ∃ id descriptor, d.head.binding = some id ∧ t.typeAt id = .ok descriptor ∧
    d.HasMembers t id descriptor.name

/-! ## Entries stay -/

theorem getElem?_of_prefix {α : Type} {as bs : Array α} (before : as.toList <+: bs.toList) {i : Nat}
    {a : α} (entry : as[i]? = some a) : bs[i]? = some a := by
  obtain ⟨added, all⟩ := before
  rw [← Array.getElem?_toList] at entry ⊢
  rw [← all, List.getElem?_append_left (List.getElem?_eq_some_iff.mp entry).1]
  exact entry

section

variable {t t' : BindingTable} {owner : TypeId}

theorem VariableSlot.HasField.later {isInterfaceLike : Bool} {f : VariableSlot}
    (has : f.HasField t owner isInterfaceLike) (grown : t.Extends t') :
    f.HasField t' owner isInterfaceLike := by
  obtain ⟨v, bound, entry⟩ := has
  obtain ⟨added, all, -⟩ := grown.addedVariables
  exact ⟨v, bound, getElem?_of_prefix ⟨added, all.symm⟩ entry⟩

theorem MethodHead.HasMethod.later {h : MethodHead} (has : h.HasMethod t owner)
    (later : t.Continues t') : h.HasMethod t' owner := by
  obtain ⟨id, bound, entry⟩ := has
  exact ⟨id, bound, getElem?_of_prefix later.methods entry⟩

theorem TypeHead.HasType.later {qualifier : Option String} {outer : Option TypeId} {h : TypeHead}
    (has : h.HasType t qualifier outer) (grown : t.Extends t') : h.HasType t' qualifier outer := by
  obtain ⟨id, n, superclass, bound, entry⟩ := has
  obtain ⟨superclass', entry'⟩ := grown.oldTypes id _ entry
  exact ⟨id, n, superclass', bound, entry'⟩

end

/-! ## Declaring makes entries -/

/-- No declaration of the piece outside the types inside it has a handle. -/
structure Contents.Unlabelled (c : Contents) : Prop where
  fields : ∀ f ∈ c.fields, f.binding = none
  methods : ∀ h ∈ c.methods, h.binding = none
  locals : ∀ l ∈ c.locals, l.binding = none

/-- Neither the type nor anything that it declares itself has a handle, nor has its superclass
clause. -/
structure TypeDecl.Unlabelled (d : TypeDecl) : Prop where
  head : d.head.Unbound
  contents : d.contents.Unlabelled

theorem TypeDecl.unlabelled_iff {d : TypeDecl} :
    d.Unlabelled ↔ (d.head.binding = none ∧ ∀ c ∈ d.head.superclass, c.binding = none) ∧
      (∀ f ∈ d.contents.fields, f.binding = none) ∧ (∀ h ∈ d.contents.methods, h.binding = none) ∧
        ∀ l ∈ d.contents.locals, l.binding = none :=
  ⟨fun ⟨⟨handle, clause⟩, ⟨fields, methods, locals⟩⟩ => ⟨⟨handle, clause⟩, fields, methods, locals⟩,
    fun ⟨⟨handle, clause⟩, fields, methods, locals⟩ =>
      ⟨⟨handle, clause⟩, ⟨fields, methods, locals⟩⟩⟩

instance : DecidablePred TypeDecl.Unlabelled :=
  fun _ => decidable_of_iff _ TypeDecl.unlabelled_iff.symm

/-- No declaration of the unit and no superclass clause has a handle. -/
def CompilationUnit.Unlabelled (u : CompilationUnit) : Prop := ∀ d ∈ u.preorder, d.Unlabelled

instance (u : CompilationUnit) : Decidable u.Unlabelled :=
  inferInstanceAs (Decidable (∀ d ∈ u.preorder, d.Unlabelled))

theorem TypeDecl.mem_contents_locals {d : TypeDecl} {l : VariableSlot} :
    l ∈ d.contents.locals ↔ ∃ m ∈ d.members, l ∈ m.contents.locals := by
  have all :
      ∀ ms : List Member, (Member.contentsOf ms).locals = ms.flatMap (·.contents.locals) := by
    intro ms
    induction ms with
    | nil => rfl
    | cons m ms ih => rw [Member.contentsOf, Contents.locals_append, ih, List.flatMap_cons]
  rw [← List.mem_flatMap, ← all]
  rfl

namespace Binding

theorem declareFragment_entry (owner : TypeId) (isInterfaceLike : Bool) (written : Modifiers)
    (type : TypeRef) {g : Fragment} {s : State} (unbound : g.binding = none) :
    ((declareFragment owner
      (if isInterfaceLike then written.union .interfaceField else written) type g
        s).1.slot type written).HasField
      (declareFragment owner
        (if isInterfaceLike then written.union .interfaceField else written) type g
        s).2.table owner isInterfaceLike := by
  obtain ⟨span, name, initializer, binding⟩ := g
  cases unbound
  exact ⟨_, rfl, Array.getElem?_push_size⟩

theorem declareField_entries (owner : TypeId) (isInterfaceLike : Bool) {f : FieldDecl} {s : State}
    (free : ∀ l ∈ f.contents.fields, l.binding = none) :
    ∀ l ∈ (declareField owner isInterfaceLike f s).1.contents.fields,
      l.HasField (declareField owner isInterfaceLike f s).2.table owner isInterfaceLike := by
  have fragments : ∀ (fs : List Fragment) (s : State),
      (∀ l ∈ fs.map (Fragment.slot f.type f.modifiers), l.binding = none) →
      ∀ l ∈ (fs.mapM (declareFragment owner
            (if isInterfaceLike then f.modifiers.union .interfaceField else f.modifiers) f.type)
          s).1.map (Fragment.slot f.type f.modifiers),
        l.HasField (fs.mapM (declareFragment owner
            (if isInterfaceLike then f.modifiers.union .interfaceField else f.modifiers) f.type)
          s).2.table owner isInterfaceLike := by
    intro fs
    induction fs with
    | nil => exact fun s _ g hg => absurd hg List.not_mem_nil
    | cons g gs ih =>
      intro s free
      obtain ⟨unbound, free⟩ := List.forall_mem_cons.mp free
      rw [mapM_cons_state]
      refine List.forall_mem_cons.mpr ⟨?_, ih _ free⟩
      exact (declareFragment_entry owner isInterfaceLike f.modifiers f.type unbound).later
        (declareFragments_enters owner _ f.modifiers f.type gs _).grown
  exact fragments f.fragments s free

theorem declareMethod_entry (owner : TypeId) {h : MethodHead} {s : State}
    (unbound : h.binding = none) :
    (declareMethod owner h s).1.HasMethod (declareMethod owner h s).2.table owner := by
  unfold declareMethod
  rw [unbound]
  exact ⟨_, rfl, Array.getElem?_push_size⟩

/-- A name that is given to a type is one of the candidates. -/
theorem freeName_candidate (t : BindingTable) (base : String) (tries n : Nat) :
    ∃ m, t.freeName base tries n = BindingTable.candidateName base m := by
  induction tries generalizing n with
  | zero => exact ⟨n, rfl⟩
  | succ tries ih =>
    rw [BindingTable.freeName]
    split
    · exact ⟨n, rfl⟩
    · exact ih (n + 1)

theorem declareHead_entry {qualifier : Option String} {outer : Option TypeId} {d d' : TypeDecl}
    {id : TypeId} {s s' : State} (unbound : d.head.binding = none)
    (run : declareHead qualifier outer d s = (.done (d', id), s')) :
    d'.head.HasType s'.table qualifier outer := by
  cases declareHead_declared run with
  | kept bound => exact absurd (bound.symm.trans unbound) (Option.some_ne_none _)
  | entered _ added =>
    obtain ⟨-, -, superclass, found⟩ := added ▸ s.table.addType_spec _
    obtain ⟨n, candidate⟩ := freeName_candidate s.table (BindingTable.qualify qualifier d.head.name)
      s.table.types.size 0
    rw [headEntry, BindingTable.uniqueTypeName, candidate] at found
    exact ⟨_, n, superclass, rfl, found⟩

/-- The fields and methods of a member of a declared type have entries. -/
theorem declareMember_entries {nested : TypeDecl → Edit State ResolveError TypeDecl}
    {owner : TypeId} {isInterfaceLike : Bool} {m m' : Member} {s s' : State}
    (fields : ∀ f ∈ m.contents.fields, f.binding = none)
    (methods : ∀ h ∈ m.contents.methods, h.binding = none)
    (run : declareMember nested owner isInterfaceLike m s = (.done m', s')) :
    (∀ f ∈ m'.contents.fields, f.HasField s'.table owner isInterfaceLike) ∧
      ∀ h ∈ m'.contents.methods, h.HasMethod s'.table owner := by
  cases declareMember_declared run with
  | type => exact ⟨fun f hf => absurd hf List.not_mem_nil, fun h hh => absurd hh List.not_mem_nil⟩
  | field f =>
    exact ⟨declareField_entries owner isInterfaceLike fields, fun h hh =>
      absurd hh List.not_mem_nil⟩
  | method h body =>
    have declares : ∀ h : MethodHead, (Member.method ⟨h, body⟩).contents.fields = [] ∧
        (Member.method ⟨h, body⟩).contents.methods = [h] := by
      intro h
      obtain ⟨-, fields, methods⟩ := Listing.mk.inj (Member.ofContents_method h body)
      exact ⟨fields, methods⟩
    have unbound : h.binding = none :=
      methods h (by rw [(declares h).2]; exact List.mem_singleton.mpr rfl)
    rw [(declares _).1, (declares _).2]
    exact ⟨fun f hf => absurd hf List.not_mem_nil,
      List.forall_mem_singleton.mpr (declareMethod_entry owner unbound)⟩
  | initializer i =>
    obtain ⟨-, noFields, noMethods⟩ := Listing.mk.inj (Member.ofContents_initializer i)
    rw [noFields, noMethods]
    exact ⟨fun f hf => absurd hf List.not_mem_nil, fun h hh => absurd hh List.not_mem_nil⟩

/-- Types without handles get entries as they are declared, and the types inside them do. -/
theorem declareType_entries {levels : Nat} {qualifier : Option String} {outer : Option TypeId}
    {d d' : TypeDecl} {s s' : State} {t : BindingTable} (free : ∀ x ∈ d.preorder, x.Unlabelled)
    (run : declareType levels qualifier outer d s = (.done d', s')) (later : s'.table.Continues t) :
    d'.head.HasType t qualifier outer ∧ ∀ x ∈ d'.preorder, x.HasEntries t := by
  -- On the levels of types: the entry of the head is made first, and everything later keeps it.
  induction levels generalizing qualifier outer d d' s s' with
  | zero => exact absurd run Edit.stop_ne_done
  | succ levels ih =>
    obtain ⟨⟨d₁, id⟩, s₁, hhead, hcontents⟩ := Edit.andThen_eq_done.mp run
    have own := free d d.mem_preorder_self
    have entry := declareHead_entry own.head.binding hhead
    obtain ⟨-, -, rfl⟩ := declareHead_enters hhead
    obtain ⟨descriptor, found, grown, members, inner⟩ :=
      declareContents_steps (fun _ _ _ _ _ run => declareType_enters run) hcontents
    have sameHead :=
      (declareContents_fills (fun _ _ _ _ _ run => declareType_fills run) hcontents).1
    obtain ⟨superclass, found'⟩ := (grown.trans later).grown.oldTypes id descriptor found
    have freeInside : ∀ c ∈ d.inner, ∀ x ∈ c.preorder, x.Unlabelled :=
      fun c hc x hx => free x (TypeDecl.preorder_subset_of_inner hc hx)
    have inside : ∀ c' ∈ d'.inner, c'.head.HasType t (some descriptor.name) (some id) ∧
        ∀ x ∈ c'.preorder, x.HasEntries t := by
      intro c' hc'
      obtain ⟨c, hc, s₂, s₃, run, after⟩ := inner c' hc'
      exact ih (freeInside c hc) run (after.trans later)
    -- A member has its entries once it is declared, and the walk into bodies leaves its handles.
    have entries : ∀ m' ∈ d'.members,
        (∀ f ∈ m'.contents.fields, f.HasField t id d'.isInterfaceLike) ∧
          ∀ h ∈ m'.contents.methods, h.HasMethod t id := by
      intro m' hm'
      obtain ⟨m, hm, m₁, s₂, s₃, run, after, same⟩ := members m' hm'
      obtain ⟨fields, methods⟩ := declareMember_entries
        (fun f hf => own.contents.fields f (TypeDecl.mem_contents_fields.mpr ⟨m, hm, hf⟩))
        (fun h hh => own.contents.methods h (TypeDecl.mem_contents_methods.mpr ⟨m, hm, hh⟩)) run
      obtain ⟨sameFields, sameMethods, -⟩ := Contents.mk.inj same
      rw [sameFields, sameMethods, TypeDecl.isInterfaceLike, sameHead]
      exact ⟨fun f hf => (fields f hf).later (after.trans later).grown,
        fun h hh => (methods h hh).later (after.trans later)⟩
    have hasEntries : d'.HasEntries t := by
      refine ⟨id,
        _, by rw [sameHead], found', fun f hf => ?_, fun h hh => ?_, fun c hc => (inside c hc).1⟩
      · obtain ⟨m', hm', hf⟩ := TypeDecl.mem_contents_fields.mp hf
        exact (entries m' hm').1 f hf
      · obtain ⟨m', hm', hh⟩ := TypeDecl.mem_contents_methods.mp hh
        exact (entries m' hm').2 h hh
    refine ⟨?_, fun x hx => ?_⟩
    · rw [sameHead]
      exact entry.later (grown.trans later).grown
    · rw [TypeDecl.preorder_cons] at hx
      rcases List.mem_cons.mp hx with rfl | hx
      · exact hasEntries
      · obtain ⟨c, hc, hx⟩ := TypeDecl.mem_contents_types.mp hx
        exact (inside c hc).2 x hx

/-- A member that is declared keeps its locals. -/
theorem declareMember_locals {nested : TypeDecl → Edit State ResolveError TypeDecl} {owner : TypeId}
    {isInterfaceLike : Bool} {m m' : Member} {s s' : State}
    (run : declareMember nested owner isInterfaceLike m s = (.done m', s')) :
    m'.contents.locals = m.contents.locals := by
  cases declareMember_declared run with
  | type => rfl
  | field f => rfl
  | method h body =>
    have parameters := declareMethod_parameters owner h s
    have head : (declareMethod owner h s).1.contents.locals = h.contents.locals := rfl
    rcases body with _ | ⟨i, ss⟩
      <;> simp only [Member.contents, Contents.locals_append, parameters, head]
  | initializer i => rfl

/-- A declared type is one of those there were: its head but for the handle, and its locals. -/
theorem declareType_kept {levels : Nat} {qualifier : Option String} {outer : Option TypeId}
    {d d' : TypeDecl} {s s' : State}
    (run : declareType levels qualifier outer d s = (.done d', s')) :
    ∀ x' ∈ d'.preorder, ∃ x ∈ d.preorder, (∃ id, x'.head = { x.head with binding := some id }) ∧
      x'.contents.locals ⊆ x.contents.locals := by
  induction levels generalizing qualifier outer d d' s s' with
  | zero => exact absurd run Edit.stop_ne_done
  | succ levels ih =>
    obtain ⟨⟨d₁, id⟩, s₁, hhead, hcontents⟩ := Edit.andThen_eq_done.mp run
    obtain ⟨-, -, rfl⟩ := declareHead_enters hhead
    obtain ⟨descriptor, -, -, members, inner⟩ :=
      declareContents_steps (fun _ _ _ _ _ run => declareType_enters run) hcontents
    have sameHead :=
      (declareContents_fills (fun _ _ _ _ _ run => declareType_fills run) hcontents).1
    intro x' hx'
    rw [TypeDecl.preorder_cons] at hx' ⊢
    rcases List.mem_cons.mp hx' with rfl | hx'
    · refine ⟨d, List.mem_cons_self, ⟨id, sameHead⟩, fun l hl => ?_⟩
      obtain ⟨m', hm', hl⟩ := TypeDecl.mem_contents_locals.mp hl
      obtain ⟨m, hm, m₁, s₂, s₃, run, -, same⟩ := members m' hm'
      obtain ⟨-, -, locals, -⟩ := Contents.mk.inj same
      rw [locals] at hl
      exact TypeDecl.mem_contents_locals.mpr ⟨m, hm, by rw [← declareMember_locals run]; exact hl⟩
    · obtain ⟨c', hc', hx'⟩ := TypeDecl.mem_contents_types.mp hx'
      obtain ⟨c, hc, s₂, s₃, run, -⟩ := inner c' hc'
      obtain ⟨x, hx, kept⟩ := ih run x' hx'
      exact ⟨x, List.mem_cons_of_mem _ (TypeDecl.mem_contents_types.mpr ⟨c, hc, hx⟩), kept⟩

end Binding

/-! ## Filled entries -/

section

variable {t : BindingTable}

theorem VariableSlot.HasField.of_fills {owner : TypeId} {isInterfaceLike : Bool}
    {f f' : VariableSlot} (has : f.HasField t owner isInterfaceLike) (filled : f.FillsTo f') :
    f'.HasField t owner isInterfaceLike := by
  obtain ⟨v, bound, entry⟩ := has
  refine ⟨v, filled.kept v bound, ?_⟩
  rw [fieldEntry, filled.name, filled.type, filled.modifiers]
  exact entry

theorem MethodHead.HasMethod.of_fills {owner : TypeId} {h h' : MethodHead}
    (has : h.HasMethod t owner) (filled : h.FillsTo h') : h'.HasMethod t owner := by
  obtain ⟨id, bound, entry⟩ := has
  have same : h'.entry owner = h.entry owner := by
    have bare : ∀ h : MethodHead, h.bare.entry owner = h.entry owner := by
      intro h
      simp only [MethodHead.entry, MethodHead.bare, List.map_map, Function.comp_def]
      rfl
    rw [← bare, filled.bare, bare]
  exact ⟨id, filled.kept id bound, by rw [same]; exact entry⟩

theorem TypeHead.HasType.of_fills {qualifier : Option String} {outer : Option TypeId}
    {h h' : TypeHead} (has : h.HasType t qualifier outer) (filled : h.FillsTo h') :
    h'.HasType t qualifier outer := by
  obtain ⟨id, n, superclass, bound, entry⟩ := has
  refine ⟨id, n, superclass, filled.kept id bound, ?_⟩
  rw [filled.name, filled.kind, filled.modifiers]
  exact entry

/-- A type in which handles are filled in keeps its entries. -/
theorem TypeDecl.HasEntries.of_fills {d d' : TypeDecl} (has : d.HasEntries t)
    (filled : d.FillsTo d') : d'.HasEntries t := by
  obtain ⟨id, descriptor, bound, found, fields, methods, inner⟩ := has
  have sameKind : d'.isInterfaceLike = d.isInterfaceLike :=
    congrArg TypeKind.isInterfaceLike filled.head.kind
  refine ⟨id, descriptor, filled.head.kept id bound, found, fun f' hf' => ?_, fun h' hh' =>
    ?_, fun c' hc' => ?_⟩
  · obtain ⟨f, hf, same⟩ := exists_mem_left filled.contents.fields hf'
    rw [sameKind]
    exact (fields f hf).of_fills same
  · obtain ⟨h, hh, same⟩ := exists_mem_left filled.contents.methods hh'
    exact (methods h hh).of_fills same
  · obtain ⟨c, hc, same⟩ := exists_mem_left filled.inner (TypeDecl.mem_contents_inner.mpr hc')
    exact (inner c (TypeDecl.mem_contents_inner.mp hc)).of_fills same

end

end ClassInit
