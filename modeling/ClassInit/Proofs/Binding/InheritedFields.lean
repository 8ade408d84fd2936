import ClassInit.Proofs.Binding.Inheritance
import ClassInit.Proofs.Binding.Registration
import ClassInit.Proofs.Binding.ResolvingOrder

/-!
# Names that mean inherited fields

A simple name for which no local is in scope means a field of the innermost enclosing type that
declares or inherits one, and is unbound if none does (`CompilationUnit.bind_inherited`). Superclass
clauses are resolved during the walk that resolves names, so this holds where no type that the
search passes gets its superclass after the name was looked up (`TypeDecl.Settled`); else an
inherited field can be missed (`CompilationUnit.bind_inherited_late`).
-/

set_option autoImplicit false

namespace ClassInit

open Binding

/-! ## What is searched -/

/-- The type declares a field with the name, or one of its superclasses does, however far up. -/
def BindingTable.Provides (t : BindingTable) (id : TypeId) (name : String) : Prop :=
  ∃ p, t.Inherits id p ∧ ∃ v, t.declaredField p name = some v

theorem BindingTable.provides_iff {t : BindingTable} {id : TypeId} {name : String} :
    t.Provides id name ↔ t.findField id name ≠ none := by
  rw [ne_eq, findField_eq_none, not_forall]
  exact exists_congr fun p => by rw [Classical.not_imp, ← ne_eq, Option.ne_none_iff_exists']

/-- The names in the arguments of enum constants. -/
def TypeHead.constantNames (h : TypeHead) : List (String × Option VariableId) :=
  h.enumConstants.flatMap fun c => Expr.namesOf c.arguments

/-- The uses of names in a type, outside the types inside it. -/
def TypeDecl.uses (d : TypeDecl) : List NameUse :=
  usesAt [] d.head.constantNames ++ d.members.flatMap Member.uses

/-- Of the types that the search for the name passes without finding a field, from the innermost of
the given ones on, none has a superclass clause in a declaration that comes after the type in the
order. -/
def TypeDecl.Settled (order : List TypeDecl) (t : BindingTable) (types : List TypeId)
    (name : String) (x : TypeDecl) : Prop :=
  ∀ inner id outer, types = inner ++ id :: outer → (∀ i ∈ inner, ¬ t.Provides i name) →
    ∀ p, t.Passes name id p → t.declaredField p name = none →
      ∀ d, [x, d].Sublist order → d.head.binding = some p → d.head.superclass = none

/-- Searches agree if they do so up to the first type in which the one finds something. -/
theorem findSome?_eq_of_first {α β : Type} {f g : α → Option β} {as : List α}
    (same : ∀ inner a outer, as = inner ++ a :: outer → (∀ i ∈ inner, f i = none) → f a = g a) :
    as.findSome? f = as.findSome? g := by
  induction as with
  | nil => rfl
  | cons a as ih =>
    have first := same [] a as rfl fun _ hi => absurd hi List.not_mem_nil
    rw [List.findSome?_cons, List.findSome?_cons, ← first]
    cases found : f a with
    | some b => rfl
    | none =>
      refine ih fun inner c outer split none => same (a :: inner) c outer (by rw [split]; rfl) ?_
      exact List.forall_mem_cons.mpr ⟨found, none⟩

/-- The field that is found is that of the innermost type that has one. -/
theorem Binding.Site.field?_iff {t : BindingTable} {types : List TypeId} {name : String}
    {v : Option VariableId} (found : v = (Site.mk t types).field? name) :
    (∀ inner id outer, types = inner ++ id :: outer → (∀ i ∈ inner, ¬ t.Provides i name) →
      t.Provides id name →
      v = t.findField id name) ∧ (v = none ↔ ∀ id ∈ types, ¬ t.Provides id name) := by
  subst found
  have missing : ∀ ids : List TypeId, (∀ i ∈ ids, ¬ t.Provides i name) ↔
      ids.findSome? (t.findField · name) = none := by
    intro ids
    rw [List.findSome?_eq_none_iff]
    exact forall₂_congr fun i _ => by rw [BindingTable.provides_iff, not_not]
  refine ⟨?_, ?_⟩
  · rintro inner id outer rfl none provides
    obtain ⟨w, own⟩ := Option.ne_none_iff_exists'.mp (BindingTable.provides_iff.mp provides)
    rw [Site.field?, List.findSome?_append, (missing inner).mp none, Option.none_or,
      List.findSome?_cons, own]
  · rw [Site.field?, missing]

/-! ## Looking up while resolving -/

/-- Every type around the members of a type outside all bodies lies around the outermost type or is
declared in it. -/
theorem TypeDecl.MemberStands.exists_binding {outer types : List TypeId} {d x : TypeDecl}
    (stands : TypeDecl.MemberStands outer d types x) :
    ∀ id ∈ types, id ∈ outer ∨ ∃ y ∈ d.preorder, y.head.binding = some id := by
  induction stands with
  | self handle =>
    intro id hid
    rcases List.mem_cons.mp hid with rfl | hid
    · exact .inr ⟨_, TypeDecl.mem_preorder_self _, handle⟩
    · exact .inl hid
  | inside handle member _ ih =>
    intro id hid
    rcases ih id hid with hid | ⟨y, hy, bound⟩
    · rcases List.mem_cons.mp hid with rfl | hid
      · exact .inr ⟨_, TypeDecl.mem_preorder_self _, handle⟩
      · exact .inl hid
    · exact .inr ⟨y, TypeDecl.preorder_subset_of_member member hy, bound⟩

/-- The names in enum constants and members that are resolved along a trail. -/
theorem TypeDecl.uses_lookedUp {w : Trail} {types : List TypeId} {h : TypeHead}
    {cs : List EnumConstant} {ms ms' : List Member} {s s₁ s' : Binding.State}
    (inside : s.Inside w types [])
    (constants : ∀ c ∈ h.enumConstants, Unnamed (Expr.namesOf c.arguments))
    (unresolved : Member.UnresolvedAll ms)
    (heads : ∀ x ∈ (Member.contentsOf ms).types, x.head.Follows w)
    (hcs : (liftM (EnumConstant.resolveAll h.enumConstants) : Resolving (List EnumConstant)).run s =
    (.ok cs, s₁)) (hms : (Member.resolveAll ms).run s₁ = (.ok ms', s')) :
    ∀ o ∈ TypeDecl.uses ⟨{ h with enumConstants := cs }, ms'⟩,
      o.LookedUpIn w s'.table [] types := by
  have declared :
      ∀ x ∈ Member.typeDeclarations ms ++ Member.bodyDeclarations ms, x.head.Follows w :=
    fun x hx => heads x ((Member.contentsOf_perm ms).mem_iff.mpr hx)
  obtain ⟨-, ⟨_, inside₁, rfl⟩, first⟩ :=
    EnumConstant.resolveAll_lookedUp _ constants s cs s₁ inside hcs
  have members :=
    Member.resolveAll_names ms unresolved (fun x hx => declared x (List.mem_append_left _ hx))
    (fun x hx => declared x (List.mem_append_right _ hx))
  obtain ⟨leads, -, second⟩ := members types [] s₁ ms' s' inside₁ hms
  intro o ho
  rcases List.mem_append.mp ho with ho | ho
  · exact (first _ leads).uses o ho
  · obtain ⟨m, hm, ho⟩ := List.mem_flatMap.mp ho
    exact (second _ (w.refl _) m hm).1.uses o ho

/-- One of the types has the handle and a superclass clause. -/
def HasClause (ds : List TypeDecl) (id : TypeId) : Prop :=
  ∃ d ∈ ds, d.head.binding = some id ∧ d.head.superclass ≠ none

theorem HasClause.of_fills {ds ds' : List TypeDecl} {id : TypeId} (has : HasClause ds id)
    (filled : List.Forall₂ TypeDecl.FillsTo ds ds') : HasClause ds' id := by
  obtain ⟨d, hd, bound, written⟩ := has
  obtain ⟨d', hd', one⟩ := exists_mem_right filled hd
  refine ⟨d', hd', one.head.kept id bound, fun none => written ?_⟩
  have names := one.head.clauseName
  rw [none] at names
  exact Option.map_eq_none_iff.mp names.symm

/-- The names in a type are looked up after its superclass clause is resolved, and then no
superclass changes but by clauses of types inside it and after it. -/
theorem TypeDecl.ResolvedBefore.lookedUp {start last : BindingTable} {around : List TypeId}
    {rest : List TypeDecl} {d d' : TypeDecl}
    (resolved : d.ResolvedBefore (start.recording fun _ => True) around rest last d')
    (fresh : d.Fresh) {id : TypeId} (handle : d'.head.binding = some id) {o : NameUse}
    (ho : o ∈ d'.uses) :
    ∃ t₁ : BindingTable, start.ResolvesTo t₁ ∧ (start.InRange → t₁.InRange) ∧ t₁.ResolvesTo last ∧
      o.handle = (Site.mk t₁ (id :: around)).means? o.scope o.identifier ∧
      ∀ p, ¬ HasClause (d'.contents.types ++ rest) p → p.index < t₁.types.size →
        last.superclass? p = t₁.superclass? p := by
  obtain ⟨s, s', inside, run, before, records⟩ := resolved
  have filled : List.Forall₂ TypeDecl.FillsTo d.contents.types d'.contents.types := by
    have all : List.Forall₂ TypeDecl.FillsTo d.preorder d'.preorder :=
      (TypeDecl.resolve_fills d s d' s' run).types
    rw [TypeDecl.preorder_cons, TypeDecl.preorder_cons] at all
    exact (List.forall₂_cons.mp all).2
  obtain ⟨h, ms⟩ := d
  have clauses := fresh.clauses
  have unresolved := fresh.unresolved
  have constants := fresh.constants _ (TypeDecl.mem_preorder_self _)
  rw [TypeDecl.Unresolved] at unresolved
  obtain ⟨id', h', s₁, cs, s₂, ms', s₃, bound, hsuper, hcs, hms, rfl, rfl⟩ :=
    TypeDecl.resolve_eq_ok run
  have follows : h.Follows (start.recording fun _ => True) :=
    TypeHead.follows_recording start (clauses _ (TypeDecl.mem_preorder_self _)) fun _ _ _ => trivial
  obtain ⟨-, ⟨_, inside₁, rfl⟩, same⟩ :=
    TypeHead.resolveSuperclass_names bound follows s h' s₁ inside hsuper
  obtain ⟨-, -, -, sameConstants, -⟩ := TypeHead.resolveSuperclass_steps bound hsuper
  have sameHandle : some id' = some id :=
    ((same _ ((start.recording _).refl _)).trans bound).symm.trans handle
  cases sameHandle
  rw [TypeDecl.preorder] at clauses
  -- From here on only the clauses of the types inside are recorded.
  generalize recording : s₁.table.recording (HasClause (Member.contentsOf ms).types) = w
  have heads : ∀ x ∈ (Member.contentsOf ms).types, x.head.Follows w := by
    intro x hx
    rw [← recording]
    exact TypeHead.follows_recording s₁.table (clauses x (List.mem_cons_of_mem _ hx))
      fun p bound written => ⟨x, hx, bound, written⟩
  have entered :
      State.Inside w (id :: around) [] { s₁ with typeScopes := id :: s₁.typeScopes } := by
    refine ⟨?_, fun _ hx => absurd hx List.not_mem_nil, congrArg (id :: ·) inside₁.types,
      inside₁.scopes⟩
    rw [← recording]
    exact (s₁.table.recording _).refl _
  obtain ⟨-, t₁, since, until', means⟩ :=
    TypeDecl.uses_lookedUp entered (sameConstants ▸ constants) unresolved heads hcs hms o ho
  rw [← recording] at since until'
  rw [List.append_nil] at means
  refine ⟨t₁, inside₁.since.1.trans since.1, fun inRange => since.2.1 (inside₁.since.2.1 inRange),
    until'.1.trans before, means, fun p noClause below => ?_⟩
  have notInside : ¬ HasClause (Member.contentsOf ms).types p := fun has => by
    obtain ⟨y, hy, clause⟩ := has.of_fills filled
    exact noClause ⟨y, List.mem_append_left _ hy, clause⟩
  have notAfter : lastClause (rest.map (·.head)) p = none := by
    refine lastClause_eq_none (List.forall_mem_map.mpr fun y hy bound => ?_)
    by_contra written
    exact noClause ⟨y, List.mem_append_right _ hy, bound, written⟩
  exact (records.others p notAfter (Nat.lt_of_lt_of_le below until'.1.grown.moreTypes)).trans
    (until'.2.2 p notInside below)

/-! ## Units -/

namespace CompilationUnit

variable {u : CompilationUnit} {t : BindingTable} {stats : Binding.Stats}

/-- A type outside all bodies of a unit without handles is resolved after those before it. -/
theorem bind_resolvedBefore (free : u.Unlabelled) (unresolved : u.Unresolved)
    (constants : ∀ d ∈ u.preorder, Unnamed d.head.constantNames)
    (success : (u.bind t).result = .ok stats) {types : List TypeId} {x' : TypeDecl}
    (stands : (u.bind t).unit.MemberStands types x') :
    ∃ start : BindingTable, (t.InRange → start.InRange) ∧
      (∀ id ∈ types, id.index < start.types.size) ∧
      ∃ id around, ∃ x : TypeDecl, ∃ pre post, types = id :: around ∧ x'.head.binding = some id ∧
      x.Fresh ∧
        (u.bind t).unit.preorder = pre ++ (x'.preorder ++ post) ∧
        x.ResolvedBefore (start.recording fun _ => True) around post (u.bind t).table x' := by
  obtain ⟨ds, s, s', declaring, resolving, table, -⟩ := bind_steps success
  have declared := declares free declaring
  have outside : (State.start t).SameStacks s := (Edit.Moves.list State.SameStacks.refl
    State.SameStacks.trans fun d _ => declareType_stacks _ _ _ d).run declaring
  -- Declaring gives handles to declarations only: names and clauses stay without.
  have fresh : ∀ d ∈ ds, d.Fresh := by
    intro d hd
    have each : (Edit.list (declareTopLevel u.package) u.types).Ends (fun _ => True)
        (fun ds => List.Forall₂ (fun _ d => TypeDecl.Unresolved d) u.types ds) fun _ => True :=
      .list fun d hd => declareType_unresolved _ u.package none d (unresolved d hd)
    obtain ⟨_, -, own⟩ := exists_mem_left (each.of_done trivial declaring).1 hd
    refine ⟨own, fun x hx c hc => ?_, fun x hx =>
      declared.clauses x (List.mem_flatMap.mpr ⟨d, hd, hx⟩)⟩
    obtain ⟨x₀, hx₀, id, same⟩ := declared.heads x (List.mem_flatMap.mpr ⟨d, hd, hx⟩)
    rw [same] at hc
    exact fun n hn => constants x₀ hx₀ n (List.mem_flatMap.mpr ⟨c, hc, hn⟩)
  obtain ⟨d', hd', stands⟩ := stands
  have inside : s.Inside (s.table.recording fun _ => True) [] [] :=
    ⟨(s.table.recording _).refl _, fun _ hx => absurd hx List.not_mem_nil, outside.1, outside.2⟩
  have heads : ∀ d ∈ ds, ∀ x ∈ d.preorder, x.head.Follows (s.table.recording fun _ => True) :=
    fun d hd x hx =>
    TypeHead.follows_recording s.table ((fresh d hd).clauses x hx) fun _ _ _ => trivial
  obtain ⟨d, pre, post, hd, order, resolved⟩ :=
    resolveTypes_before inside (fun d hd => (fresh d hd).unresolved) heads resolving hd'
  obtain ⟨id, around, x, pre', post', same, handle, fresh', order', resolved'⟩ :=
    stands.resolvedBefore (fresh d hd) resolved
  refine ⟨s.table, declared.inRange, fun i hi => ?_, id, around, x, pre ++ pre', post', same,
    handle, fresh', ?_, ?_⟩
  · obtain nothing | ⟨y', hy', bound⟩ := stands.exists_binding i hi
    · exact absurd nothing List.not_mem_nil
    · obtain ⟨y, hy, one⟩ := exists_mem_left (resolveTypes_filled resolving).2.1
        (List.mem_flatMap.mpr ⟨d', hd', hy'⟩)
      obtain ⟨i', bound', known⟩ := declared.enters.known y.head (List.mem_map_of_mem hy)
      have kept := one.head.kept i' bound'
      rw [bound] at kept
      cases kept
      exact known
  · rw [preorder, order, order', List.append_assoc]
  · rw [table]
    exact resolved'

/-- Take a unit without handles that is bound with a table whose types are in range, and a simple
name outside local types for which no local is in scope. If no type that the search for it passes
has a superclass clause further down, the name has the handle of the field of the innermost type
around it that declares or inherits one, by the final table; and it is unbound exactly if none
does. -/
theorem bind_inherited (free : u.Unlabelled) (unresolved : u.Unresolved)
    (constants : ∀ d ∈ u.preorder, Unnamed d.head.constantNames) (inRange : t.InRange)
    (success : (u.bind t).result = .ok stats) {types : List TypeId} {x : TypeDecl}
    (stands : (u.bind t).unit.MemberStands types x) {o : NameUse} (ho : o ∈ x.uses)
    (simple : splitLast? o.identifier = none) (noLocal : o.scope.lookup o.identifier = none)
    (settled : x.Settled (u.bind t).unit.preorder (u.bind t).table types o.identifier) :
    (∀ inner id outer, types = inner ++ id :: outer →
      (∀ i ∈ inner, ¬ (u.bind t).table.Provides i o.identifier) →
      (u.bind t).table.Provides id o.identifier →
        o.handle = (u.bind t).table.findField id o.identifier) ∧
    (o.handle = none ↔ ∀ id ∈ types, ¬ (u.bind t).table.Provides id o.identifier) := by
  obtain ⟨start, startInRange, known, id, around, x₀, pre, post, same, handle, fresh, order,
    resolved⟩ :=
    bind_resolvedBefore free unresolved constants success stands
  obtain ⟨t₁, since, inRange₁, until', means, kept⟩ := resolved.lookedUp fresh handle ho
  rw [Site.means?, simple] at means
  replace means : o.handle =
    (o.scope.lookup o.identifier).or ((Site.mk t₁ (id :: around)).field? o.identifier) := means
  rw [noLocal, Option.none_or, ← same] at means
  refine Site.field?_iff (means.trans (Eq.symm ?_))
  -- Inside each type the search takes the way that it takes in the final table.
  refine findSome?_eq_of_first fun inner i outer split none => ?_
  replace split : types = inner ++ i :: outer := split
  have hi : i ∈ types := split ▸ List.mem_append_right _ List.mem_cons_self
  refine BindingTable.findField_eq_of_passes until'.adds.declaredField
    (inRange₁ (startInRange inRange))
    (Nat.lt_of_lt_of_le (known i hi) since.grown.moreTypes) fun p passes missing below => ?_
  refine kept p ?_ below
  rintro ⟨y, hy, bound, written⟩
  refine written (settled inner i outer split (fun j hj => ?_) p passes missing y ?_ bound)
  · rw [BindingTable.provides_iff, not_not]
    exact none j hj
  · rw [order, TypeDecl.preorder_cons]
    have both : [x, y].Sublist (x :: (x.contents.types ++ post)) :=
      (List.singleton_sublist.mpr hy).cons_cons x
    exact both.trans (List.sublist_append_right _ _)

/-- `class A extends B { int y = x; }`, `class B extends C { }` and `class C { int x; }`. -/
def inheritingTypes : List TypeDecl :=
  let head (name : String) (superclass : Option String) : TypeHead :=
    ⟨.unassigned, .dummy, .classType, name, .empty, superclass.map (⟨·, none⟩), none, []⟩
  let field (name : String) (initializer : Option Expr) : Member :=
    .field ⟨.unassigned, .dummy, .empty, .primitive .int, [⟨.dummy, name, initializer, none⟩]⟩
  [⟨head "A" (some "B"), [field "y" (some (.name ⟨.unassigned, .dummy, none⟩ "x" none))]⟩,
    ⟨head "B" (some "C"), []⟩,
    ⟨head "C" none, [field "x" none]⟩]

/-- A simple name outside local types, in the scope of no local, of the unit without handles that is
bound has a handle; and a search for it in the type around it finds something in the final table. -/
structure FindsInherited (u : CompilationUnit) (handle found : Option VariableId) : Prop where
  unlabelled : u.Unlabelled
  unresolved : u.Unresolved
  constants : ∀ d ∈ u.preorder, Unnamed d.head.constantNames
  bound : ∃ stats, (u.bind .new).result = .ok stats
  use : ∃ id x, (u.bind .new).unit.MemberStands [id] x ∧
    ∃ o ∈ x.uses, splitLast? o.identifier = none ∧
    o.scope.lookup o.identifier = none ∧ o.handle = handle ∧
    (u.bind .new).table.findField id o.identifier = found

/-- No handle is written in the declarations, in whatever order they stand. -/
theorem inheritingTypes_free {u : CompilationUnit} (types : u.types.Perm inheritingTypes) :
    u.Unlabelled ∧ u.Unresolved ∧ ∀ d ∈ u.preorder, Unnamed d.head.constantNames := by
  have order : u.preorder.Perm inheritingTypes := types.flatMap_right _
  have free : ∀ d ∈ inheritingTypes, d.Unlabelled := by decide +kernel
  have constants : ∀ d ∈ inheritingTypes, ∀ x ∈ d.head.constantNames, x.2 = none := by
    decide +kernel
  have unresolved : ∀ d ∈ inheritingTypes, d.Unresolved := by
    refine List.forall_mem_cons.mpr
      ⟨?_, List.forall_mem_cons.mpr ⟨?_, List.forall_mem_singleton.mpr ?_⟩⟩
    · refine TypeDecl.unresolved_iff.mpr (List.forall_mem_singleton.mpr ?_)
      rw [Member.Unresolved]
      exact List.forall_mem_singleton.mpr (List.forall_mem_singleton.mpr rfl)
    · exact TypeDecl.unresolved_iff.mpr fun _ hm => absurd hm List.not_mem_nil
    · refine TypeDecl.unresolved_iff.mpr (List.forall_mem_singleton.mpr ?_)
      rw [Member.Unresolved]
      exact List.forall_mem_singleton.mpr fun _ hx => absurd hx List.not_mem_nil
  exact ⟨fun d hd => free d (order.mem_iff.mp hd), fun d hd => unresolved d (types.mem_iff.mp hd),
    fun d hd => constants d (order.mem_iff.mp hd)⟩

/-- With the declarations in the order in which they inherit, the name means the inherited field. -/
theorem bind_inherited_sample :
    FindsInherited ⟨"A.java", none, inheritingTypes.reverse, .initial⟩ (some ⟨0⟩) (some ⟨0⟩) := by
  generalize unit : CompilationUnit.mk "A.java" none inheritingTypes.reverse .initial = u
  have types : u.types.Perm inheritingTypes := by
    rw [← unit]
    exact List.reverse_perm _
  obtain ⟨free, unresolved, constants⟩ := inheritingTypes_free types
  obtain ⟨stats, success⟩ : ∃ stats, (u.bind .new).result = .ok stats := by
    rw [← unit]
    exact exists_eq_ok (by decide +kernel)
  obtain ⟨x, hx, handle, o, ho, name, scope⟩ : ∃ x ∈ (u.bind .new).unit.types,
    x.head.binding = some ⟨4⟩ ∧
      ∃ o ∈ x.uses, o.identifier = "x" ∧ o.scope = [] := by
    rw [← unit]
    decide +kernel
  have stands : (u.bind .new).unit.MemberStands [⟨4⟩] x := ⟨x, hx, .self handle⟩
  have simple : splitLast? o.identifier = none := by rw [name]; decide +kernel
  have noLocal : o.scope.lookup o.identifier = none := by rw [scope]; rfl
  have found : (u.bind .new).table.findField ⟨4⟩ "x" = some ⟨0⟩ := by
    rw [← unit]
    decide +kernel
  -- Nothing comes after the type.
  have last :
      (u.bind .new).unit.preorder.map (·.head.binding) = [some ⟨2⟩, some ⟨3⟩, some ⟨4⟩] := by
    rw [← unit]
    decide +kernel
  have settled : x.Settled (u.bind .new).unit.preorder (u.bind .new).table [⟨4⟩] o.identifier := by
    intro _ _ _ _ _ _ _ _ d after
    have handles := after.map (·.head.binding)
    rw [last, List.map_cons, handle] at handles
    grind
  have means :=
    (bind_inherited free unresolved constants BindingTable.inRange_new success stands ho simple
      noLocal
    settled).1 [] ⟨4⟩ [] rfl (fun _ hi => absurd hi List.not_mem_nil)
      (BindingTable.provides_iff.mpr (by rw [name, found]; exact nofun))
  rw [name, found] at means
  exact ⟨free, unresolved, constants, ⟨stats, success⟩, ⟨4⟩, x, stands, o, ho, simple,
    noLocal, means,
    by rw [name]; exact found⟩

/-- With the declarations the other way round, the name is unbound, although a search finds the
inherited field. -/
theorem bind_inherited_late :
    FindsInherited ⟨"A.java", none, inheritingTypes, .initial⟩ none (some ⟨1⟩) := by
  obtain ⟨free, unresolved, constants⟩ :=
    inheritingTypes_free (u := ⟨"A.java", none, inheritingTypes, .initial⟩) (.refl _)
  obtain ⟨x, hx, handle, used⟩ :
      ∃ x ∈ ((CompilationUnit.mk "A.java" none inheritingTypes .initial).bind .new).unit.types,
        x.head.binding = some ⟨2⟩ ∧ (⟨"x", none, []⟩ : NameUse) ∈ x.uses := by
    decide +kernel
  exact ⟨free, unresolved, constants, exists_eq_ok (by decide +kernel), ⟨2⟩, x,
    ⟨x, hx, .self handle⟩, _, used,
    by decide +kernel, rfl, rfl, by decide +kernel⟩

end CompilationUnit

end ClassInit
