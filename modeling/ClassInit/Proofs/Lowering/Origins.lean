import ClassInit.Proofs.Lowering.Types

/-!
# Where lowered types come from

Every type declaration of a lowered unit, at whatever depth it stands and into whatever constructor
or routine it was copied, is a declaration of the unit that was lowered by the rules, up to node ids
(`CompilationUnit.lower_origin`). What the rules guarantee of one type therefore holds throughout
the output. The types of the unit and their member types are all there
(`CompilationUnit.lower_types`).
-/

set_option autoImplicit false

namespace ClassInit

namespace Lowering

/-! ## Inner types of a lowered type -/

theorem inner_method {h : MethodHead} {i : NodeInfo} {ss : List Stmt} :
    (Member.method ⟨h, some ⟨i, ss⟩⟩).inner = Stmt.localTypesOf ss := rfl

/-- A type in statements that initialize stands in a member. -/
theorem mem_of_mem_initList {t : BindingTable} {encoding : LiteralEncoding}
    {isInterface once : Bool} {ms : List Member} {x : TypeDecl}
    (found : x ∈ Stmt.localTypesOf (initList t encoding isInterface once ms)) :
    ∃ m ∈ ms, x ∈ m.inner := by
  rw [Stmt.localTypesOf_eq_flatMap] at found
  obtain ⟨s, hs, hx⟩ := List.mem_flatMap.mp found
  rcases exists_of_mem_initList hs with
    ⟨f, -, g, -, e, -, rfl⟩ | ⟨⟨n, isStatic, ⟨b, ss⟩⟩, hi, -, hs⟩
  · exact absurd hx List.not_mem_nil
  · refine ⟨_, hi, ?_⟩
    show x ∈ Stmt.localTypesOf ss
    rcases mem_blockInit hs with rfl | hs
    · exact hx
    · rw [Stmt.localTypesOf_eq_flatMap]
      exact List.mem_flatMap.mpr ⟨s, hs, hx⟩

/-- A type in a copy of statements that initialize stands, up to node ids, in a member. -/
theorem mem_of_mem_copy {t : BindingTable} {encoding : LiteralEncoding} {isInterface once : Bool}
    {ms : List Member} {copies : List Stmt}
    (copied : SameStmts copies (initList t encoding isInterface once ms)) {x : TypeDecl}
    (found : x ∈ Stmt.localTypesOf copies) :
    ∃ m ∈ ms, ∃ y ∈ m.inner, y.erase id = x.erase id := by
  have same :
      Stmt.eraseAll id copies = Stmt.eraseAll id (initList t encoding isInterface once ms) := by
    rw [Stmt.eraseAll_eq_map, Stmt.eraseAll_eq_map]
    exact copied
  obtain ⟨y, hy, eq⟩ := Stmt.exists_localType_of_erase id same found
  obtain ⟨m, hm, hy⟩ := mem_of_mem_initList hy
  exact ⟨m, hm, y, hy, eq⟩

theorem IsImplicitSuper.localTypes {call : Stmt} (implicit : IsImplicitSuper call) :
    call.localTypes = [] := by
  obtain ⟨n, handle, rfl⟩ := implicit
  rfl

theorem localTypes_of_isSuperCall {s : Stmt} (isCall : s.isSuperCall = true) :
    s.localTypes = [] := by
  cases s <;> first | rfl | cases isCall

/-- A type directly inside a lowered member stands, up to node ids, in a member of the type. -/
theorem MemberLowered.inner {t : BindingTable} {encoding : LiteralEncoding}
    {isInterface : Bool} {ms : List Member} {m m' : Member} (hm : m ∈ ms)
    (lowered : MemberLowered t encoding isInterface (initList t encoding isInterface false ms) m m')
    {x : TypeDecl} (found : x ∈ m'.inner) :
    ∃ m ∈ ms, ∃ y ∈ m.inner, y.erase id = x.erase id := by
  cases lowered with
  | type d => exact ⟨_, hm, x, found, rfl⟩
  | field _ => exact absurd found List.not_mem_nil
  | method _ => exact ⟨_, hm, x, found, rfl⟩
  | constructor _ _ made =>
    cases made with
    | delegating _ => exact ⟨_, hm, x, found, rfl⟩
    | @explicit h i before after copies call _ _ isCall copied =>
      have inBody : ∀ y, y ∈ Stmt.localTypesOf before ∨ y ∈ Stmt.localTypesOf after →
          y ∈ (Member.method ⟨h, some ⟨i, before ++ call :: after⟩⟩).inner := by
        intro y hy
        rw [inner_method, Stmt.localTypesOf_append, Stmt.localTypesOf]
        rcases hy with hy | hy
        · exact List.mem_append_left _ hy
        · exact List.mem_append_right _ (List.mem_append_right _ hy)
      -- A type in the spliced list is a copy of one in an initializer block; the others are where
      -- they were.
      rw [inner_method, Stmt.localTypesOf_append, Stmt.localTypesOf,
        Stmt.localTypesOf_append, localTypes_of_isSuperCall isCall, List.nil_append] at found
      rcases List.mem_append.mp found with found | found
      · exact ⟨_, hm, x, inBody x (.inl found), rfl⟩
      rcases List.mem_append.mp found with found | found
      · exact mem_of_mem_copy copied found
      · exact ⟨_, hm, x, inBody x (.inr found), rfl⟩
    | @implicit h i ss copies call _ _ implied copied =>
      rw [inner_method, Stmt.localTypesOf, Stmt.localTypesOf_append,
        implied.localTypes, List.nil_append] at found
      rcases List.mem_append.mp found with found | found
      · exact mem_of_mem_copy copied found
      · exact ⟨_, hm, x, found, rfl⟩

/-- A type directly inside a lowered type is, up to node ids, one directly inside the type. -/
theorem TypeLowered.inner {options : Options} {t : BindingTable} {isInterface : Bool}
    {access : Modifiers} {d d' : TypeDecl} (lowered : TypeLowered options t isInterface access d d')
    {x : TypeDecl} (found : x ∈ d'.inner) :
    ∃ y ∈ d.inner, y.erase id = x.erase id := by
  suffices h : ∃ m ∈ d.members, ∃ y ∈ m.inner, y.erase id = x.erase id by
    obtain ⟨m, hm, y, hy, eq⟩ := h
    exact ⟨y, TypeDecl.mem_inner.mpr ⟨m, hm, hy⟩, eq⟩
  obtain ⟨m', hm', found⟩ := TypeDecl.mem_inner.mp found
  rcases lowered.mem_cases hm' with
    ⟨m, hm, one⟩ | ⟨call, ss, implied, copied, n, bodyId, handle, rfl⟩ |
    ⟨ss, copied, n, bodyId, handle, rfl⟩
  · exact one.inner hm found
  · rw [inner_method, Stmt.localTypesOf, implied.localTypes, List.nil_append] at found
    exact mem_of_mem_copy copied found
  · exact mem_of_mem_copy copied found

/-! ## Every declaration of the output -/

/-- A type directly inside a lowered type is, up to node ids, a lowered type directly inside the
type. `t` and `t'` are the tables at the start and at the end of a longer run. -/
theorem lowerType_inner {options : Options} {t t' : BindingTable} {levels : Nat}
    {d d' c' : TypeDecl} {s s' : State} (before : t.Grows s.table) (after : s'.table.Grows t')
    (run : lowerType options (levels + 1) d s = (.done d', s')) (found : c' ∈ d'.inner) :
    ∃ c ∈ d.inner, ∃ c₁ s₁ s₂, t.Grows s₁.table ∧ lowerType options levels c s₁ = (.done c₁, s₂) ∧
      s₂.table.Grows t' ∧ c₁.erase id = c'.erase id := by
  obtain ⟨_, _, d₁, s₁, -, -, nested, rest, lowered⟩ := lowerType_done before run
  obtain ⟨listed, -, -⟩ := lowerNested_done nested
  -- Inside the type, the declaration was there before the type itself was lowered.
  obtain ⟨c₁, hc₁, same⟩ := lowered.inner found
  obtain ⟨c, hc, s₂, s₃, grown, step, grown'⟩ := Edit.exists_step_of_mem State.Grows.refl
    State.Grows.trans (lowerType_moves options levels) listed hc₁
  exact ⟨c, hc, c₁, s₂, s₃, before.trans grown, step,
    (BindingTable.Grows.trans grown' rest).trans after, same⟩

/-- What a lowered type is to the type that it comes from, every declaration in it is to one in that
type, if copies count like what they are copies of. -/
theorem lowerType_declarations {options : Options} {t t' : BindingTable}
    {R : TypeDecl → TypeDecl → Prop} (copied : ∀ x y y', R x y → y.erase id = y'.erase id → R x y')
    (own : ∀ levels d d' s s', t.Grows s.table → s'.table.Grows t' →
      lowerType options (levels + 1) d s = (.done d', s') → R d d')
    (levels : Nat) {d d' : TypeDecl} {s s' : State} (before : t.Grows s.table)
    (after : s'.table.Grows t') (run : lowerType options levels d s = (.done d', s')) :
    ∀ x' ∈ d'.declarations, ∃ x ∈ d.declarations, R x x' := by
  induction levels generalizing d d' s s' with
  | zero => exact absurd run Edit.stop_ne_done
  | succ levels ih =>
    intro x' hx'
    rw [TypeDecl.declarations_eq] at hx'
    rcases List.mem_cons.mp hx' with rfl | hx'
    · exact ⟨d, d.mem_declarations_self, own levels d x' s s' before after run⟩
    · obtain ⟨c', hc', hx'⟩ := List.mem_flatMap.mp hx'
      obtain ⟨c, hc, c₁, s₁, s₂, before₁, step, after₂, same⟩ :=
        lowerType_inner before after run hc'
      obtain ⟨x₁, hx₁, sameInside⟩ := TypeDecl.exists_declaration_of_erase id same hx'
      obtain ⟨x, hx, related⟩ := ih before₁ after₂ step x₁ hx₁
      refine ⟨x, ?_, copied x x₁ x' related sameInside⟩
      rw [TypeDecl.declarations_eq]
      exact List.mem_cons_of_mem _ (List.mem_flatMap.mpr ⟨c, hc, hx⟩)

/-! ## Origins -/

/-- The second declaration comes from the first: its nested types are edited, it is lowered by the
rules, and possibly copied. -/
structure Origin (options : Options) (t : BindingTable) (d d' : TypeDecl) : Prop where
  lowered : ∃ type descriptor d₁ d₂, d.head.binding = some type ∧
    t.typeAt type = .ok descriptor ∧ d₁.head = d.head ∧
    d₁.members.map Member.outline = d.members.map Member.outline ∧
    TypeLowered options t descriptor.isInterface descriptor.modifiers.access d₁ d₂ ∧
    d₂.erase id = d'.erase id

/-- A copy has the origin of what is copied. -/
theorem Origin.of_erase {options : Options} {t : BindingTable} {d x y : TypeDecl}
    (origin : Origin options t d x) (same : x.erase id = y.erase id) : Origin options t d y := by
  obtain ⟨type, descriptor, d₁, d₂, bound, described, head, outline, lowered, eq⟩ := origin.lowered
  exact ⟨type, descriptor, d₁, d₂, bound, described, head, outline, lowered, eq.trans same⟩

/-- A lowered declaration has the handle of the one that it comes from. -/
theorem Origin.binding {options : Options} {t : BindingTable} {d d' : TypeDecl}
    (origin : Origin options t d d') :
    ∃ type, d.head.binding = some type ∧ d'.head.binding = some type := by
  obtain ⟨type, descriptor, d₁, ⟨h₂, ms₂⟩, bound, -, head, -, lowered, copied⟩ := origin.lowered
  obtain ⟨h', ms'⟩ := d'
  have sameHead : h₂.erase id = h'.erase id := (TypeDecl.mk.inj copied).1
  have binding := congrArg TypeHead.binding sameHead
  refine ⟨type, bound, ?_⟩
  rw [← head, ← lowered.head] at bound
  exact binding.symm.trans bound

/-- A lowered type comes from the type. -/
theorem lowerType_origin {options : Options} {t : BindingTable} {levels : Nat} {d d' : TypeDecl}
    {s s' : State} (grown : t.Grows s.table)
    (run : lowerType options (levels + 1) d s = (.done d', s')) : Origin options t d d' := by
  obtain ⟨type, descriptor, d₁, s₁, bound, described, nested, -, lowered⟩ :=
    lowerType_done grown run
  obtain ⟨-, head, outline⟩ := lowerNested_done nested
  exact ⟨type, descriptor, d₁, d', bound, described, head, outline, lowered, rfl⟩

/-! ## Member types stay -/

/-- A member type is left as it is when the type that declares it is lowered. -/
theorem TypeLowered.memberTypes {options : Options} {t : BindingTable} {isInterface : Bool}
    {access : Modifiers} {d d' c : TypeDecl}
    (lowered : TypeLowered options t isInterface access d d') (hc : c ∈ d.memberTypes) :
    c ∈ d'.memberTypes := by
  obtain ⟨m, hm, isType⟩ := List.mem_filterMap.mp hc
  cases m with
  | method m | initializer i | field f => cases isType
  | type x =>
    cases isType
    obtain ⟨m', hm', one⟩ := lowered.exists_lowered hm rfl
    cases one with
    | type => exact List.mem_filterMap.mpr ⟨_, hm', rfl⟩

/-- The first type and all its member types, at any depth, have a counterpart in the second. -/
def MemberTypesStay (d d' : TypeDecl) : Prop :=
  ∀ x : TypeDecl, x.IsWithin d → ∃ x' : TypeDecl, x'.IsWithin d' ∧ x'.head = x.head

theorem lowerType_memberTypes {options : Options} (levels : Nat) {d d' : TypeDecl} {s s' : State}
    (run : lowerType options levels d s = (.done d', s')) : MemberTypesStay d d' := by
  induction levels generalizing d d' s s' with
  | zero => exact absurd run Edit.stop_ne_done
  | succ levels ih =>
    intro x within
    obtain ⟨type, descriptor, d₁, s₁, -, -, nested, -, lowered⟩ :=
      lowerType_done (BindingTable.Grows.refl s.table) run
    cases within with
    | self =>
      obtain ⟨-, head, -⟩ := lowerNested_done nested
      exact ⟨d', .self d', lowered.head.trans head⟩
    | @member c _ hc within =>
      obtain ⟨s₂, listed⟩ := lowerNested_memberTypes nested
      have related :=
        Edit.forall₂_of_done (R := MemberTypesStay) (fun _ _ _ _ step => ih step) listed
      obtain ⟨c', hc', inside⟩ := exists_mem_right related hc
      obtain ⟨x', within', head⟩ := inside x within
      exact ⟨x', .member (lowered.memberTypes hc') within', head⟩

end Lowering

/-- Every type of a unit that is no local type is there after lowering. -/
theorem CompilationUnit.lower_types {u : CompilationUnit} {t : BindingTable}
    {options : Lowering.Options} {stats : Lowering.Stats}
    (success : (u.lower t options).result = .ok stats) {d x : TypeDecl} (hd : d ∈ u.types)
    (within : x.IsWithin d) :
    ∃ x' ∈ (u.lower t options).unit.declarations, x'.head = x.head := by
  have related := Edit.forall₂_of_done (R := Lowering.MemberTypesStay)
    (fun _ _ _ _ step => Lowering.lowerType_memberTypes _ step) (lower_run success)
  obtain ⟨d', hd', inside⟩ := exists_mem_right related hd
  obtain ⟨x', within', head⟩ := inside x within
  exact ⟨x', List.mem_flatMap.mpr ⟨d', hd', within'.mem_declarations⟩, head⟩

/-- What every lowered type is to the type that it comes from, every declaration of a lowered unit
is to one of the unit, if copies count like what they are copies of. -/
theorem CompilationUnit.lower_declarations {u : CompilationUnit} {t : BindingTable}
    {options : Lowering.Options} {stats : Lowering.Stats}
    (success : (u.lower t options).result = .ok stats) {R : TypeDecl → TypeDecl → Prop}
    (copied : ∀ x y y', R x y → y.erase id = y'.erase id → R x y')
    (own : ∀ levels d d' s s', t.Grows s.table → s'.table.Grows (u.lower t options).table →
      Lowering.lowerType options (levels + 1) d s = (.done d', s') → R d d') :
    ∀ x' ∈ (u.lower t options).unit.declarations, ∃ x ∈ u.declarations, R x x' := by
  intro x' hx'
  obtain ⟨d', hd', hx'⟩ := List.mem_flatMap.mp hx'
  obtain ⟨d, hd, s₁, s₂, before, step, after⟩ :=
    Edit.exists_step_of_mem Lowering.State.Grows.refl Lowering.State.Grows.trans
      (Lowering.lowerType_moves options (Limits.typeNesting + 1)) (lower_run success) hd'
  obtain ⟨x, hx, related⟩ := Lowering.lowerType_declarations copied own _ before after step x' hx'
  exact ⟨x, List.mem_flatMap.mpr ⟨d, hd, hx⟩, related⟩

/-- A lowered unit holds only declarations of the unit, each lowered by the rules. -/
theorem CompilationUnit.lower_origin {u : CompilationUnit} {t : BindingTable}
    {options : Lowering.Options} {stats : Lowering.Stats}
    (success : (u.lower t options).result = .ok stats) :
    ∀ x' ∈ (u.lower t options).unit.declarations, ∃ x ∈ u.declarations,
      Lowering.Origin options t x x' :=
  lower_declarations success (fun _ _ _ origin => origin.of_erase)
    fun _ _ _ _ _ before _ run => Lowering.lowerType_origin before run

end ClassInit
