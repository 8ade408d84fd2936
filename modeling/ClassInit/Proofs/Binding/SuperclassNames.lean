import ClassInit.Proofs.Binding.Creations
import ClassInit.Proofs.Binding.LocalClasses
import ClassInit.Proofs.Binding.QualifiedNames
import ClassInit.Proofs.Binding.Registration
import Mathlib.Data.List.TakeWhile

/-!
# What a simple superclass name means

A superclass clause with a simple name is looked up as a qualified name first, as it is written, and
then as the last segment of any type that is known when its declaration is resolved. So in a package
it means the top-level type of this name exactly if no type that is known by then and was added
later ends in the name (`CompilationUnit.bind_simpleClause`). Without a package the name is the
qualified name of that type.
-/

set_option autoImplicit false

namespace ClassInit

open Binding

/-! ## Segments of names -/

theorem Names.simple_of_undotted {name : String} (undotted : '.' ∉ name.toList) :
    Names.simple name = name := by
  have all : name.toList.reverse.takeWhile (· ≠ '.') = name.toList.reverse := by
    refine List.takeWhile_eq_self_iff.mpr fun c hc => ?_
    exact decide_eq_true fun dot => undotted (dot ▸ List.mem_reverse.mp hc)
  rw [Names.simple, all, List.reverse_reverse, String.ofList_toList]

namespace BindingTable

theorem toList_subset_candidateName (base : String) (n : Nat) :
    base.toList ⊆ (candidateName base n).toList := by
  intro c hc
  unfold candidateName
  split
  · exact hc
  · rw [String.toList_append, String.toList_append]
    exact List.mem_append_left _ (List.mem_append_left _ hc)

theorem candidateName_of_unnumbered {base name : String} {n : Nat}
    (named : candidateName base n = name) (unnumbered : '$' ∉ name.toList) : base = name := by
  unfold candidateName at named
  split at named
  · exact named
  · refine absurd ?_ unnumbered
    rw [← named, String.toList_append, String.toList_append]
    exact List.mem_append_left _ (List.mem_append_right _ (by decide))

theorem dotted_qualify {qualifier : String} (named : qualifier ≠ "") (name : String) :
    '.' ∈ (qualify (some qualifier) name).toList := by
  have full : qualifier.isEmpty = false := by simpa using named
  rw [qualify, full, if_neg Bool.false_ne_true, String.toList_append, String.toList_append]
  exact List.mem_append_left _ (List.mem_append_right _ (by decide))

theorem toList_subset_qualify (qualifier : Option String) (name : String) :
    name.toList ⊆ (qualify qualifier name).toList := by
  intro c hc
  unfold qualify
  split
  · split
    · exact hc
    · rw [String.toList_append]
      exact List.mem_append_right _ hc
  · exact hc

theorem candidateName_ne_empty (qualifier : Option String) {name : String} (named : name ≠ "")
    (n : Nat) :
    candidateName (qualify qualifier name) n ≠ "" := by
  intro empty
  have inside :=
    List.Subset.trans (toList_subset_qualify qualifier name) (toList_subset_candidateName _ n)
  rw [empty] at inside
  exact named (String.toList_eq_nil_iff.mp (List.subset_nil.mp inside))

/-! ## A simple name -/

variable {known : BindingTable} {name : String}

/-- What a simple name means among the known types is the type: the name is its qualified name, or
it ends in the name, and then the name is the qualified name of no type and no later type ends in
it. -/
def Means (known : BindingTable) (name : String) (id : TypeId) : Prop :=
  ∃ d, known.typeAt id = .ok d ∧ (d.name = name ∨ d.simpleName = name ∧
    ∀ other e, known.typeAt other = .ok e → e.simpleName = name → e.name ≠ name ∧
      other.index ≤ id.index)

/-- A clause with a simple name finds a type that was known before if a search finds it, by its
qualified name or else by its last segment. -/
theorem superclassOf_eq_iff (undotted : '.' ∉ name.toList) {id : TypeId}
    (old : id.index < known.types.size) :
    (superclassOf ⟨name, none⟩ (.start known)).1 = id ↔
      known.lookupType name = some id ∨ known.lookupType name = none ∧
      known.lookupSimpleType name = some id := by
  have plain : name.toList.contains '.' = false := by simpa using undotted
  show (resolveSuperclass name (.start known)).1 = id ↔ _
  unfold resolveSuperclass
  simp only [State.start, plain, if_neg Bool.false_ne_true]
  cases qualified : known.lookupType name with
  | some found => simp
  | none =>
    cases known.lookupSimpleType name with
    | some found => simp
    | none =>
      -- The class that is added has a handle of its own.
      have added : (known.internClass name).1 = ⟨known.types.size⟩ := by
        simp only [internClass, qualified]
        rw [(known.typeNames_addClass _).1, length_typeNames]
      have other : (known.internClass name).1 ≠ id := by
        rintro rfl
        rw [added] at old
        exact Nat.lt_irrefl _ old
      simpa [enter] using other

/-- The name means the type that such a search finds. -/
theorem means_iff (repeats : known.RepeatsEnum) (undotted : '.' ∉ name.toList) {id : TypeId} :
    known.Means name id ↔
      known.lookupType name = some id ∨ known.lookupType name = none ∧
      known.lookupSimpleType name = some id := by
  constructor
  · rintro ⟨d, entry, rfl | ⟨ends, only⟩⟩
    · -- Only an enum can share its name with another type, and the name of that enum has dots.
      refine .inl (repeats.lookupType entry fun _ e _ same shadows => undotted ?_)
      rw [← same, shadows.2]
      decide
    · refine .inr ⟨lookupType_eq_none_iff.mpr fun e he named => ?_, lookupSimpleType_eq_some_iff.mpr
        ⟨⟨d, entry, ends⟩, fun other e entry' ends' => (only other e entry' ends').2⟩⟩
      obtain ⟨i, there⟩ := Array.mem_iff_getElem?.mp he
      have simple : e.simpleName = name := by
        rw [TypeDescriptor.simpleName, named, Names.simple_of_undotted undotted]
      exact (only ⟨i⟩ e (typeAt_eq_ok.mpr there) simple).1 named
  · rintro (qualified | ⟨unqualified, simple⟩)
    · obtain ⟨⟨d, entry, named⟩, -⟩ := lookupType_eq_some_iff.mp qualified
      exact ⟨d, entry, .inl named⟩
    · obtain ⟨⟨d, entry, ends⟩, greatest⟩ := lookupSimpleType_eq_some_iff.mp simple
      refine ⟨d, entry, .inr ⟨ends, fun other e there ends' => ⟨?_, greatest other e there ends'⟩⟩⟩
      exact lookupType_eq_none_iff.mp unqualified e (Array.mem_of_getElem? (typeAt_eq_ok.mp there))

/-- The name chosen for a type is the one that it would have, unless another type has this. -/
theorem uniqueTypeName_eq (t : BindingTable) (qualifier : Option String) (name : String) :
    t.uniqueTypeName qualifier name = qualify qualifier name ∨
      t.lookupType (qualify qualifier name) ≠ none := by
  unfold uniqueTypeName
  cases t.types.size with
  | zero => exact .inl rfl
  | succ tries =>
    rw [freeName]
    split
    · exact .inl rfl
    · rename_i taken
      exact .inr fun free => taken (Option.isNone_iff_eq_none.mpr free)

end BindingTable

/-! ## The types that are known at a place -/

namespace Mention

theorem bindIn_changes (t : BindingTable) (m : Mention) : t.Changes (m.bindIn t).2 := by
  cases m with
  | clause c => exact superclassOf_changes c (.start t)
  | creation c => exact .refl

theorem bindAll_changes (t : BindingTable) (ms : List Mention) : t.Changes (bindAll t ms).2 := by
  induction ms generalizing t with
  | nil => exact .refl
  | cons m ms ih => exact (m.bindIn_changes t).trans (ih (m.bindIn t).2)

theorem bindIn_extends (t : BindingTable) (m : Mention) : t.Extends (m.bindIn t).2 := by
  cases m with
  | clause c =>
    obtain ⟨p, t', found, -, rfl | ⟨-, superclass, rfl⟩⟩ := superclassOf_cases c (.start t)
    · rw [bindIn, found]
      exact .refl _
    · rw [bindIn, found]
      exact .pushType _ _
  | creation c => exact .refl t

theorem bindAll_extends (t : BindingTable) (ms : List Mention) : t.Extends (bindAll t ms).2 := by
  induction ms generalizing t with
  | nil => exact .refl t
  | cons m ms ih => exact (m.bindIn_extends t).trans (ih (m.bindIn t).2)

end Mention

namespace CompilationUnit

theorem declaredTable_changes (u : CompilationUnit) (t : BindingTable) :
    t.Changes (u.declaredTable t) := by
  have moves : (Edit.list (declareTopLevel u.package) u.types).Moves State.Changes :=
    Edit.Moves.list (fun _ => .refl) (fun _ _ _ => .trans)
      fun d _ => declareType_changes (Limits.typeNesting + 1) u.package none d
  exact moves (.start t)

/-- Of the types that are known at a place, only an enum can repeat a name. -/
theorem knownAfter_repeatsEnum (u : CompilationUnit) (before : List Mention) :
    (u.knownAfter .new before).RepeatsEnum := by
  have changes : BindingTable.new.Changes (u.knownAfter .new before) :=
    (u.declaredTable_changes .new).trans (Mention.bindAll_changes _ before)
  exact changes.keeps (fun _ _ change repeats => repeats.change change) BindingTable.RepeatsEnum.new

end CompilationUnit

/-! ## The clause of a top-level type -/

/-- Where no other head has the handle, the clause of a head is the last one for its type. -/
theorem lastClause_of_alone {hs : List TypeHead} {h : TypeHead} {id p : TypeId} (hh : h ∈ hs)
    (clause : h.clause? = some (id, p)) (alone : ∀ k ∈ hs, k.binding = some id → k = h) :
    lastClause hs id = some p := by
  obtain ⟨q, last⟩ := exists_lastClause hh clause
  obtain ⟨k, hk, clause'⟩ := exists_of_lastClause last
  obtain rfl := alone k hk (TypeHead.clause?_eq_some.mp clause').1
  rw [clause] at clause'
  cases clause'
  exact last

namespace CompilationUnit

variable {u : CompilationUnit} {t : BindingTable} {stats : Binding.Stats} {ds : List TypeDecl}
  {s : Binding.State}

theorem declared_heads
    (declaring : Edit.list (declareTopLevel u.package) u.types (.start t) = (.done ds, s)) :
    List.Forall₂ (fun d d' => d.head.FillsTo d'.head) u.types ds := by
  refine Edit.forall₂_of_done (fun _ _ _ _ run => ?_) declaring
  exact (declareType_fills run).head

/-- The superclass of a top-level type is looked up among the types that are known where its
declaration begins. -/
theorem bind_clause (free : u.Unlabelled) (success : (u.bind t).result = .ok stats) {k : Nat}
    {d : TypeDecl} {c : TypeName} (listed : u.types[k]? = some d)
    (written : d.head.superclass = some c) :
    let known := u.knownAfter t ((u.types.take k).flatMap TypeDecl.mentions)
    ∃ id, (u.bind t).unit.types[k]?.bind (·.head.clause?) =
      some (id, (superclassOf c (.start known)).1) ∧
      (u.bind t).table.superclass? id = some (superclassOf c (.start known)).1 := by
  intro known
  obtain ⟨ds, s, s', declaring, resolving, -⟩ := bind_runs success
  have declared := declares free declaring
  obtain ⟨⟨h, ms⟩, at_k, filled⟩ := getElem?_of_forall₂ (declared_heads declaring) listed
  -- Declaring keeps the clause.
  have written' : h.superclass = some c := by
    have name := filled.clauseName
    rw [written] at name
    obtain ⟨⟨name', binding⟩, clause, rfl⟩ := Option.map_eq_some_iff.mp name
    have unbound :=
      declared.clauses ⟨h, ms⟩ (TypeDecl.mem_flatMap_preorder (List.mem_of_getElem? at_k)) _ clause
    have unbound' :=
      (free d (TypeDecl.mem_flatMap_preorder (List.mem_of_getElem? listed))).head.clause c written
    obtain ⟨name, binding'⟩ := c
    cases unbound
    cases unbound'
    exact clause
  obtain ⟨d', s₁, s₂, bound, early, one⟩ := Step.mapM_eq_ok_at resolving at_k
  -- The types before it bind their mentions, and no more happens to the names.
  have names : s₁.table.typeNames = known.typeNames := by
    have follows := resolveTypes_binds (ds.take k) s _ s₁ early
    have same :
        (ds.take k).flatMap TypeDecl.mentions = (u.types.take k).flatMap TypeDecl.mentions := by
      rw [List.flatMap, List.flatMap,
        map_eq_of_forall₂ (List.forall₂_take k (declared_mentions declaring))]
    have start : u.declaredTable t = s.table := by rw [declaredTable, declaring]
    rw [follows.names, same, ← start]
    rfl
  obtain ⟨id, h', s₃, cs, s₄, ms', s₅, handle, hsuper, -, -, rfl, -⟩ := TypeDecl.resolve_eq_ok one
  have clause : h'.clause? = some (id, (superclassOf c (.start known)).1) := by
    rcases TypeHead.resolveSuperclass_eq_ok hsuper with
      ⟨none, -⟩ | ⟨c', p, t₁, t₂, written'', found, -, -, rfl⟩
    · rw [written'] at none
      cases none
    · rw [written'] at written''
      cases written''
      rw [superclassOf_eq] at found
      obtain ⟨rfl, -⟩ := Prod.mk.inj found
      rw [(superclassOf_of_typeNames c names).1]
      exact TypeHead.clause?_eq_some.mpr ⟨handle, _, rfl, rfl⟩
  refine ⟨id, ?_, ?_⟩
  · rw [bound]
    exact clause
  · have inside : (⟨{ h' with enumConstants := cs }, ms'⟩ : TypeDecl) ∈ (u.bind t).unit.preorder :=
      TypeDecl.mem_flatMap_preorder (List.mem_of_getElem? bound)
    -- No other declaration has the handle, so that this clause is the one that stays recorded.
    refine (bind_labelled success).2 id
      _ (lastClause_of_alone (List.mem_map_of_mem inside) clause ?_)
    intro k hk same
    obtain ⟨x, hx, rfl⟩ := List.mem_map.mp hk
    have own : h'.binding = some id := (TypeHead.clause?_eq_some.mp clause).1
    exact congrArg TypeDecl.head ((bind_registers free success).eq_of_binding hx inside same own)

end CompilationUnit

/-! ## The names of declared types -/

namespace Binding

variable {qualifier : Option String} {outer : Option TypeId} {d d' : TypeDecl} {s s' : State}

theorem declareHead_name {id : TypeId} (unbound : d.head.binding = none)
    (run : declareHead qualifier outer d s = (.done (d', id), s')) :
    d'.head.binding = some id ∧ s.table.types.size ≤ id.index ∧
      ∃ e, s'.table.typeAt id = .ok e ∧ e.name = s.table.uniqueTypeName qualifier d.head.name := by
  cases declareHead_declared run with
  | kept bound => exact absurd (bound.symm.trans unbound) (Option.some_ne_none _)
  | entered _ added =>
    obtain ⟨-, above, superclass, entry⟩ := added ▸ s.table.addType_spec _
    exact ⟨rfl, above, _, entry, rfl⟩

/-- A type gets a new entry under the name that is chosen for it in the table at this point. -/
theorem declareType_name {levels : Nat} (unbound : d.head.binding = none)
    (run : declareType levels qualifier outer d s = (.done d', s')) :
    ∃ id e, d'.head.binding = some id ∧ s.table.types.size ≤ id.index ∧ s'.table.typeAt id = .ok e ∧
      e.name = s.table.uniqueTypeName qualifier d.head.name := by
  cases levels with
  | zero => exact absurd run Edit.stop_ne_done
  | succ levels =>
    obtain ⟨⟨d₁, id⟩, s₁, hhead, hcontents⟩ := Edit.andThen_eq_done.mp run
    obtain ⟨bound, above, e, entry, named⟩ := declareHead_name unbound hhead
    have sameHead :=
      (declareContents_fills (fun _ _ _ _ _ run => declareType_fills run) hcontents).1
    obtain ⟨-, -, grown, -, -⟩ :=
      declareContents_steps (fun _ _ _ _ _ run => declareType_enters run) hcontents
    obtain ⟨superclass, later⟩ := grown.grown.oldTypes id e entry
    exact ⟨id, _, sameHead ▸ bound, above, later, named⟩

/-- If no name is empty, the types inside a declared type have names with dots. -/
theorem declareType_inside {levels : Nat} {t : BindingTable} (free : ∀ x ∈ d.preorder, x.Unlabelled)
    (named : ∀ x ∈ d.preorder, x.head.name ≠ "")
    (run : declareType levels qualifier outer d s = (.done d', s')) (later : s'.table.Continues t) :
    ∀ x ∈ d'.preorder, x = d' ∨ ∃ id e, x.head.binding = some id ∧ t.typeAt id = .ok e ∧
      '.' ∈ e.name.toList := by
  -- A type inside another one is declared with one level less, below the name of that one.
  induction levels generalizing qualifier outer d d' s s' with
  | zero => exact absurd run Edit.stop_ne_done
  | succ levels ih =>
    obtain ⟨⟨d₁, id⟩, s₁, hhead, hcontents⟩ := Edit.andThen_eq_done.mp run
    have own := (free d d.mem_preorder_self).head.binding
    obtain ⟨id₁, n, superclass, bound, entry⟩ := declareHead_entry own hhead
    obtain ⟨-, -, rfl⟩ := declareHead_enters hhead
    obtain rfl : id = id₁ := Option.some.inj bound
    obtain ⟨descriptor, found, -, -, inner⟩ :=
      declareContents_steps (fun _ _ _ _ _ run => declareType_enters run) hcontents
    have full : descriptor.name ≠ "" := by
      rw [entry] at found
      cases found
      exact BindingTable.candidateName_ne_empty qualifier (named d d.mem_preorder_self) n
    intro x hx
    rw [TypeDecl.preorder_cons] at hx
    refine (List.mem_cons.mp hx).imp_right fun hx => ?_
    obtain ⟨c', hc', hx⟩ := TypeDecl.mem_contents_types.mp hx
    obtain ⟨c, hc, s₂, s₃, run, after⟩ := inner c' hc'
    replace hc : c ∈ d.inner := hc
    have inside := TypeDecl.preorder_subset_of_inner hc
    rcases ih (fun y hy => free y (inside hy)) (fun y hy => named y (inside hy)) run
      (after.trans later) x hx with
      rfl | dotted
    · obtain ⟨⟨id', m, superclass', bound', entry'⟩, -⟩ :=
        declareType_entries (fun y hy => free y (inside hy)) run (after.trans later)
      refine ⟨id', _, bound', entry', ?_⟩
      exact BindingTable.toList_subset_candidateName _ m (BindingTable.dotted_qualify full _)
    · exact dotted

end Binding

namespace CompilationUnit

variable {u : CompilationUnit} {stats : Binding.Stats} {ds : List TypeDecl} {s : Binding.State}

/-- If no name is empty, every type that is known once the unit is declared is one of its top-level
types or has a name with dots. -/
theorem declared_undotted (free : u.Unlabelled) (named : ∀ d ∈ u.preorder, d.head.name ≠ "")
    (declaring : Edit.list (declareTopLevel u.package) u.types (.start .new) = (.done ds, s))
    {id : TypeId} {e : TypeDescriptor} (entry : s.table.typeAt id = .ok e)
    (undotted : '.' ∉ e.name.toList) :
    ∃ d ∈ ds, d.head.binding = some id := by
  have declared := declares free declaring
  -- The types known from the start have names with dots, and so have the types inside others and
  -- the superclass of enums.
  by_cases old : id.index < BindingTable.new.types.size
  · obtain ⟨f, entry'⟩ := BindingTable.typeAt_of_index_lt old
    obtain ⟨superclass, kept⟩ := declared.enters.grown.oldTypes id f entry'
    rw [entry] at kept
    cases kept
    have wellKnown : ∀ f ∈ BindingTable.new.types.toList, '.' ∈ f.name.toList := by decide +kernel
    exact absurd
      (wellKnown f
        (Array.mem_toList_iff.mpr (Array.mem_of_getElem? (BindingTable.typeAt_eq_ok.mp entry'))))
      undotted
  · rcases declared.enters.others id.index (Nat.le_of_not_lt old)
      (BindingTable.index_lt_of_typeAt entry) with
      ⟨h, hh, bound⟩ | ⟨superclass, enum⟩
    · obtain ⟨x, hx, rfl⟩ := List.mem_map.mp hh
      obtain ⟨d', hd', hx⟩ := List.mem_flatMap.mp hx
      obtain ⟨d, hd, s₁, s₂, run, after⟩ := declared_tops declaring d' hd'
      have inside : ∀ y ∈ d.preorder, y ∈ u.preorder := fun y hy => List.mem_flatMap.mpr ⟨d, hd, hy⟩
      rcases declareType_inside (fun y hy => free y (inside y hy))
        (fun y hy => named y (inside y hy)) run after x hx
        with rfl | ⟨id', e', bound', entry', dotted⟩
      · exact ⟨x, hd', bound⟩
      · rw [bound] at bound'
        cases bound'
        rw [entry] at entry'
        cases entry'
        exact absurd dotted undotted
    · rw [BindingTable.typeAt_eq_ok.mp entry] at enum
      cases enum
      have dotted : '.' ∈ Names.enumType.toList := by decide
      exact absurd dotted undotted

/-- A simple name that only one top-level type has, and that could not be another name with a number
after it. -/
structure SinglesOut (u : CompilationUnit) (name : String) (j : Nat) : Prop where
  named : ∀ d ∈ u.preorder, d.head.name ≠ ""
  unnumbered : '$' ∉ name.toList
  only : ∀ i x, u.types[i]? = some x → x.head.name = name → i = j

theorem qualify_unpackaged (unpackaged : u.package.getD "" = "") (name : String) :
    BindingTable.qualify u.package name = name := by
  unfold BindingTable.qualify
  cases written : u.package with
  | none => rfl
  | some q =>
    rw [written] at unpackaged
    obtain rfl : q = "" := unpackaged
    rfl

section

variable {name : String} {j : Nat} {d : TypeDecl} {τ : TypeId}

/-- Without a package no type can have such a name but the one that the name singles out. -/
theorem SinglesOut.eq_of_name (singles : u.SinglesOut name j) (free : u.Unlabelled)
    (declaring : Edit.list (declareTopLevel u.package) u.types (.start .new) = (.done ds, s))
    (unpackaged : u.package.getD "" = "") (undotted : '.' ∉ name.toList) (at_j : ds[j]? = some d)
    (bound : d.head.binding = some τ) {other : TypeId} {f : TypeDescriptor}
    (entry : s.table.typeAt other = .ok f) (called : f.name = name) : other = τ := by
  obtain ⟨y, hy, handle⟩ := declared_undotted free singles.named declaring entry (called ▸ undotted)
  obtain ⟨_, n, _, handle', entry'⟩ := ((declares free declaring).entries s.table (.refl _)).1 y hy
  rw [handle] at handle'
  cases handle'
  -- The type is declared under the name, and no other name with a number after it looks like this
  -- one.
  have named : y.head.name = name := by
    rw [entry, qualify_unpackaged unpackaged] at entry'
    have candidate := congrArg TypeDescriptor.name (Except.ok.inj entry')
    exact BindingTable.candidateName_of_unnumbered (candidate.symm.trans called) singles.unnumbered
  obtain ⟨i, at_i⟩ := List.mem_iff_getElem?.mp hy
  obtain ⟨z, listed, filled⟩ := getElem?_of_forall₂ (declared_heads declaring).flip at_i
  obtain rfl := singles.only i z listed (filled.name.symm.trans named)
  rw [at_j] at at_i
  cases at_i
  rw [bound] at handle
  exact (Option.some.inj handle).symm

/-- Without a package such a name is the qualified name of its type. -/
theorem SinglesOut.qualifiedName (singles : u.SinglesOut name j) (free : u.Unlabelled)
    (declaring : Edit.list (declareTopLevel u.package) u.types (.start .new) = (.done ds, s))
    (unpackaged : u.package.getD "" = "") (undotted : '.' ∉ name.toList) (at_j : ds[j]? = some d)
    (isNamed : d.head.name = name) (bound : d.head.binding = some τ) {e : TypeDescriptor}
    (entry : s.table.typeAt τ = .ok e) : e.name = name := by
  obtain ⟨x, hx, s₁, s₂, run, after⟩ := declared_tops declaring d (List.mem_of_getElem? at_j)
  have sameName : x.head.name = name := (declareType_fills run).head.name.symm.trans isNamed
  have unbound := (free x (TypeDecl.mem_flatMap_preorder hx)).head.binding
  obtain ⟨τ', e', bound', above, entry', chosen⟩ := declareType_name unbound run
  rw [bound] at bound'
  cases bound'
  obtain ⟨superclass, kept⟩ := after.grown.oldTypes τ e' entry'
  rw [entry] at kept
  cases kept
  refine chosen.trans ?_
  rw [sameName]
  have candidates := s₁.table.uniqueTypeName_eq u.package name
  rw [qualify_unpackaged unpackaged] at candidates
  refine candidates.resolve_right fun taken => ?_
  -- A type that had the name by then would be this type, which has its handle only afterwards.
  obtain ⟨other, found⟩ := Option.ne_none_iff_exists'.mp taken
  obtain ⟨⟨f, there, called⟩, -⟩ := BindingTable.lookupType_eq_some_iff.mp found
  obtain ⟨superclass', there'⟩ :=
    ((declareType_enters run).continues.trans after).grown.oldTypes other f there
  obtain rfl := singles.eq_of_name free declaring unpackaged undotted at_j bound there' called
  exact absurd (BindingTable.index_lt_of_typeAt there) (Nat.not_lt_of_le above)

end

/-- The superclass of a top-level type with a clause `extends N`, with no dot in `N`, compared with
any top-level type of this name: the clause means that type exactly if the name does so among the
types that are known where the declaration of the clause begins. In a package the type's qualified
name is not `N`, so that any later type that ends in the name hides it. Without a package the clause
means the only top-level type of the name. -/
theorem bind_simpleClause (free : u.Unlabelled) (success : (u.bind .new).result = .ok stats)
    {k : Nat} {d : TypeDecl} {c : TypeName} (listed : u.types[k]? = some d)
    (written : d.head.superclass = some c) (undotted : '.' ∉ c.name.toList) :
    let bound := (u.bind .new).unit
    let known := u.knownAfter .new ((u.types.take k).flatMap TypeDecl.mentions)
    ∃ id superclass, bound.types[k]?.bind (·.head.clause?) = some (id, superclass) ∧
      (u.bind .new).table.superclass? id = some superclass ∧
      ∀ j x, u.types[j]? = some x → x.head.name = c.name →
        ∃ τ e n, bound.types[j]?.bind (·.head.binding) = some τ ∧ known.typeAt τ = .ok e ∧
          e.name = BindingTable.candidateName (BindingTable.qualify u.package c.name) n ∧
          (superclass = τ ↔ known.Means c.name τ) ∧
          (u.package.getD "" ≠ "" → e.name ≠ c.name) ∧
          (u.package.getD "" = "" → u.SinglesOut c.name j → superclass = τ) := by
  intro bound known
  obtain ⟨id, clause, recorded⟩ := bind_clause free success listed written
  refine ⟨id, _, clause, recorded, fun j x listedX isNamed => ?_⟩
  obtain ⟨ds, s, s', declaring, resolving, -⟩ := bind_runs success
  obtain ⟨d', at_j, filled⟩ := getElem?_of_forall₂ (declared_heads declaring) listedX
  have named' : d'.head.name = c.name := filled.name.trans isNamed
  obtain ⟨τ, n, superclass, handle, entry⟩ :=
    ((declares free declaring).entries s.table (.refl _)).1 d' (List.mem_of_getElem? at_j)
  obtain ⟨y, boundY, filledY⟩ := getElem?_of_forall₂ (resolveTypes_filled resolving).1 at_j
  -- The entry is still there when the clause is looked up.
  have grown : s.table.Extends known := by
    have start : u.declaredTable .new = s.table := by rw [declaredTable, declaring]
    rw [← start]
    exact Mention.bindAll_extends _ _
  obtain ⟨superclass', entry'⟩ := grown.oldTypes τ _ entry
  rw [named'] at entry entry'
  have unbound : c = ⟨c.name, none⟩ := by
    have none :=
      (free d (TypeDecl.mem_flatMap_preorder (List.mem_of_getElem? listed))).head.clause c written
    rw [← none]
  have means : (superclassOf c (.start known)).1 = τ ↔ known.Means c.name τ := by
    rw [BindingTable.means_iff (u.knownAfter_repeatsEnum _) undotted, unbound]
    exact BindingTable.superclassOf_eq_iff undotted (BindingTable.index_lt_of_typeAt entry')
  refine ⟨τ, _, n, ?_, entry', rfl, means, fun packaged => ?_, fun unpackaged singles => ?_⟩
  · rw [boundY]
    exact filledY.kept τ handle
  · intro same
    cases package : u.package with
    | none => exact absurd (by rw [package]; rfl) packaged
    | some q =>
      rw [package] at packaged same
      refine undotted ?_
      rw [← same]
      exact BindingTable.toList_subset_candidateName _ n (BindingTable.dotted_qualify packaged _)
  · have plain := singles.qualifiedName free declaring unpackaged undotted at_j named' handle entry
    exact means.mpr ⟨_, entry', .inl plain⟩

/-- `class N { } class Outer { class N { } } class X extends N { }`, in a package or not. -/
def namesakesUnit (package : Option String) : CompilationUnit :=
  let head (name : String) (superclass : Option TypeName) : TypeHead :=
    ⟨.unassigned, .dummy, .classType, name, .empty, superclass, none, []⟩
  ⟨"A.java", package,
    [⟨head "N" none, []⟩, ⟨head "Outer" none, [.type ⟨head "N" none, []⟩]⟩,
      ⟨head "X" (some ⟨"N", none⟩), []⟩],
    .initial⟩

/-- Without a package the clause means the top-level type. -/
theorem bind_simpleClause_unpackaged :
    let u := namesakesUnit none
    let known := u.knownAfter .new []
    u.Unlabelled ∧ (u.bind .new).result = .ok ⟨4, 0, 0, 0, 0⟩ ∧
      u.types[2]? =
        some ⟨⟨.unassigned, .dummy, .classType, "X", .empty, some ⟨"N", none⟩, none, []⟩, []⟩ ∧
      u.types[0]? = some ⟨⟨.unassigned, .dummy, .classType, "N", .empty, none, none, []⟩, []⟩ ∧
      u.SinglesOut "N" 0 ∧
      ∃ id τ e n, (u.bind .new).unit.types[2]?.bind (·.head.clause?) = some (id, τ) ∧
        (u.bind .new).table.superclass? id = some τ ∧
        (u.bind .new).unit.types[0]?.bind (·.head.binding) = some τ ∧ known.typeAt τ = .ok e ∧
        e.name = BindingTable.candidateName "N" n ∧ known.Means "N" τ := by
  intro u known
  have free : u.Unlabelled := by decide +kernel
  have success : (u.bind .new).result = .ok ⟨4, 0, 0, 0, 0⟩ := by decide +kernel
  have singles : u.SinglesOut "N" 0 := by
    refine ⟨by decide +kernel, by decide, fun i x listed named => ?_⟩
    have place : ∀ i < u.types.length, (u.types[i]?.map (·.head.name)) = some "N" → i = 0 := by
      decide +kernel
    exact place i (List.getElem?_eq_some_iff.mp listed).1 (by rw [listed, Option.map_some, named])
  obtain ⟨id, superclass, clause, recorded, compare⟩ :=
    bind_simpleClause (k := 2) (c := ⟨"N", none⟩) free success rfl rfl (by decide)
  obtain ⟨τ, e, n, handle, entry, named, means, -, unpackaged⟩ := compare 0 _ rfl rfl
  obtain rfl := unpackaged rfl singles
  exact ⟨free, success, rfl, rfl, singles, id, superclass, e, n, clause, recorded, handle, entry,
    named, means.mp rfl⟩

/-- In a package it means the member type of that name, since this comes later. -/
theorem bind_simpleClause_packaged :
    let u := namesakesUnit (some "p")
    let bound := u.bind .new
    u.Unlabelled ∧ bound.result = .ok ⟨4, 0, 0, 0, 0⟩ ∧
      u.types.map (·.head.name) = ["N", "Outer", "X"] ∧
      u.types[2]?.bind (·.head.superclass) = some ⟨"N", none⟩ ∧
      bound.table.typeNames = ["java.lang.Object", "java.lang.String", "p.N", "p.Outer",
        "p.Outer.N", "p.X"] ∧
      bound.unit.types[0]?.bind (·.head.binding) = some ⟨2⟩ ∧
      bound.unit.types[2]?.bind (·.head.clause?) = some (⟨5⟩, ⟨4⟩) ∧
      bound.table.superclass? ⟨5⟩ = some ⟨4⟩ := by
  decide +kernel

end CompilationUnit

end ClassInit
