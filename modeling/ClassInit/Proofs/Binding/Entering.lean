import ClassInit.Proofs.Binding.Listing

/-!
# Entering declarations

Declaring gives a handle to every type, field and method that has none: each gets an entry of its
own, and the counts tell how many there were. Besides these the table gets at most the class of all
enums (`Binding.declareType_enters`). Nothing else of the tree changes
(`Binding.declareType_fills`).
-/

set_option autoImplicit false

namespace ClassInit

open Binding

namespace Binding

/-! ## What declaring does to the state -/

/-- From the first state to the second the types, fields and methods of the first list become those
of the second: those without handles get new entries, one each and counted, every handle of a type
has an entry, and every other new type is the class of all enums. -/
structure Enters (s s' : State) (c c' : Listing) : Prop where
  grown : s.table.Extends s'.table
  kept : s.table.Precedes s'.table
  heads : Allocated TypeHead.key c.heads c'.heads s.table.types.size s'.table.types.size
  fields : Allocated VariableSlot.key c.fields c'.fields s.table.vars.size s'.table.vars.size
  methods : Allocated MethodHead.key c.methods c'.methods s.table.methods.size s'.table.methods.size
  known : ∀ h ∈ c'.heads, ∃ id, h.binding = some id ∧ id.index < s'.table.types.size
  counts : s'.stats = { s.stats with
    types := s.stats.types + c.heads.countP (·.binding.isNone)
    fields := s.stats.fields + c.fields.countP (·.binding.isNone)
    methods := s.stats.methods + c.methods.countP (·.binding.isNone) }
  fieldSize : s'.table.vars.size = s.table.vars.size + c.fields.countP (·.binding.isNone)
  methodSize : s'.table.methods.size = s.table.methods.size + c.methods.countP (·.binding.isNone)
  typeSize : s.table.types.size + c.heads.countP (·.binding.isNone) ≤ s'.table.types.size
  others : ∀ i, s.table.types.size ≤ i → i < s'.table.types.size →
    (∃ h ∈ c'.heads, h.binding = some ⟨i⟩) ∨ ∃ superclass,
      s'.table.types[i]? = some { BindingTable.external Names.enumType with superclass }

namespace Enters

variable {s s₁ s' : State} {c c' d d' : Listing}

/-- Declaring nothing changes nothing. -/
theorem empty (s : State) : Enters s s ⟨[], [], []⟩ ⟨[], [], []⟩ :=
  ⟨.refl _, .refl _, .nil, .nil, .nil, fun _ hh => absurd hh List.not_mem_nil, rfl, rfl, rfl,
    Nat.le_refl _, fun _ low high => absurd low (Nat.not_le_of_lt high)⟩

/-- One after the other. -/
theorem append (first : Enters s s₁ c c') (second : Enters s₁ s' d d') :
    Enters s s' (c ++ d) (c' ++ d') := by
  have methodSize := first.methodSize
  have methodSize' := second.methodSize
  have fieldCount : (c ++ d).fields.countP (·.binding.isNone) =
      c.fields.countP (·.binding.isNone) + d.fields.countP (·.binding.isNone) := List.countP_append
  have methodCount : (c ++ d).methods.countP (·.binding.isNone) =
      c.methods.countP (·.binding.isNone) + d.methods.countP (·.binding.isNone) :=
        List.countP_append
  have headCount : (c ++ d).heads.countP (·.binding.isNone) =
      c.heads.countP (·.binding.isNone) + d.heads.countP (·.binding.isNone) := List.countP_append
  refine ⟨first.grown.trans second.grown, first.kept.trans second.kept,
    first.heads.append second.heads first.grown.moreTypes second.grown.moreTypes,
    first.fields.append second.fields first.grown.moreVariables second.grown.moreVariables,
    first.methods.append second.methods (by omega) (by omega),
    List.forall_mem_append.mpr ⟨fun h hh => ?_, second.known⟩, ?_, ?_, ?_, ?_, fun i low high => ?_⟩
  · obtain ⟨id, bound, known⟩ := first.known h hh
    exact ⟨id, bound, Nat.lt_of_lt_of_le known second.grown.moreTypes⟩
  · rw [fieldCount, methodCount, headCount, second.counts, first.counts]
    simp only [Nat.add_assoc]
  · rw [fieldCount, second.fieldSize, first.fieldSize, Nat.add_assoc]
  · rw [methodCount, methodSize', methodSize, Nat.add_assoc]
  · rw [headCount]
    have := first.typeSize
    have := second.typeSize
    omega
  -- A type that is there in between is one of the first run, and a later one is of the second.
  · by_cases early : i < s₁.table.types.size
    · refine (first.others i low early).imp ?_ ?_
      · exact fun ⟨h, hh, bound⟩ => ⟨h, List.mem_append_left _ hh, bound⟩
      · rintro ⟨superclass, entry⟩
        obtain ⟨superclass', entry'⟩ :=
          second.grown.oldTypes ⟨i⟩ _ (BindingTable.typeAt_eq_ok.mpr entry)
        exact ⟨superclass', BindingTable.typeAt_eq_ok.mp entry'⟩
    · refine (second.others i (Nat.le_of_not_lt early) high).imp_left ?_
      exact fun ⟨h, hh, bound⟩ => ⟨h, List.mem_append_right _ hh, bound⟩

/-- The order does not matter. -/
theorem alike (enters : Enters s s' c c') (same : c.Alike d) (same' : c'.Alike d') :
    Enters s s' d d' := by
  obtain ⟨grown, kept, heads, fields, methods, known, counts, fieldSize, methodSize, typeSize,
    others⟩ :=
    enters
  rw [same.heads.countP_eq, same.fields.countP_eq, same.methods.countP_eq] at counts
  rw [same.fields.countP_eq] at fieldSize
  rw [same.methods.countP_eq] at methodSize
  rw [same.heads.countP_eq] at typeSize
  refine ⟨grown, kept, heads.perm same.heads same'.heads, fields.perm same.fields same'.fields,
    methods.perm same.methods same'.methods, fun h hh => known h (same'.heads.mem_iff.mpr hh),
    counts,
    fieldSize, methodSize, typeSize, fun i low high => ?_⟩
  exact (others i low high).imp_left fun ⟨h, hh, bound⟩ => ⟨h, same'.heads.mem_iff.mp hh, bound⟩

/-- Declaring only adds to the table. -/
theorem continues (enters : Enters s s' c c') : s.table.Continues s'.table :=
  ⟨enters.grown, enters.kept.methods⟩

/-- A list of edits goes through what stands in the items, one after the other. -/
theorem list {ε α : Type} {f : α → Edit State ε α} (piece : α → Listing)
    (single : ∀ a b s s', f a s = (.done b, s') → Enters s s' (piece a) (piece b)) {as bs : List α}
    {s s' : State} (run : Edit.list f as s = (.done bs, s')) :
    Enters s s' (.flatMap piece as) (.flatMap piece bs) := by
  induction as generalizing bs s with
  | nil =>
    obtain ⟨rfl, rfl⟩ := Edit.list_nil_eq_done.mp run
    exact .empty s
  | cons a as ih =>
    obtain ⟨b, s₁, cs, hb, hcs, rfl⟩ := Edit.list_cons_eq_done.mp run
    exact (single a b s s₁ hb).append (ih hcs)

end Enters

/-! ## Entries -/

/-- A field gets an entry unless it has a handle. -/
theorem declareFragment_enters (owner : TypeId) (modifiers written : Modifiers) (type : TypeRef)
    (f : Fragment) (s : State) :
    Enters s (declareFragment owner modifiers type f s).2 ⟨[], [f.slot type written], []⟩
      ⟨[], [(declareFragment owner modifiers type f s).1.slot type written], []⟩ := by
  obtain ⟨span, name, initializer, _ | v⟩ := f
  · have size : (s.table.addVariable ⟨name, type, modifiers, some owner, true, none⟩).2.vars.size =
        s.table.vars.size + 1 := Array.size_push _
    refine ⟨.addVariable s.table rfl, .addVariable s.table _, .nil,
      .fresh (n := s.table.vars.size) rfl (Nat.le_refl _) ?_, .nil,
      fun _ hh => absurd hh List.not_mem_nil, rfl, size, rfl, Nat.le_refl _,
      fun _ low high => absurd low (Nat.not_le_of_lt high)⟩
    show _ < (s.table.addVariable ⟨name, type, modifiers, some owner, true, none⟩).2.vars.size
    rw [size]
    exact Nat.lt_succ_self _
  · obtain ⟨grown, kept, heads, -, methods, known, counts, size, methodSize, typeSize, others⟩ :=
      Enters.empty s
    exact ⟨grown, kept, heads, .kept rfl, methods, known, counts, size, methodSize, typeSize,
      others⟩

/-- So do the variables of a declaration, in order. -/
theorem declareFragments_enters (owner : TypeId) (modifiers written : Modifiers) (type : TypeRef)
    (fs : List Fragment) (s : State) :
    Enters s (fs.mapM (declareFragment owner modifiers type) s).2
      ⟨[], fs.map (Fragment.slot type written), []⟩
      ⟨[], (fs.mapM (declareFragment owner modifiers type) s).1.map (Fragment.slot type written),
        []⟩ := by
  induction fs generalizing s with
  | nil => exact .empty s
  | cons g gs ih =>
    rw [mapM_cons_state]
    exact (declareFragment_enters owner modifiers written type g s).append (ih _)

/-- So do the fields of a declaration, with the modifiers that an interface implies. -/
theorem declareField_enters (owner : TypeId) (isInterfaceLike : Bool) (f : FieldDecl) (s : State) :
    Enters s (declareField owner isInterfaceLike f s).2 (.ofContents f.contents)
      (.ofContents (declareField owner isInterfaceLike f s).1.contents) :=
  declareFragments_enters owner _ f.modifiers f.type f.fragments s

/-- A method gets an entry unless it has a handle. -/
theorem declareMethod_enters (owner : TypeId) (h : MethodHead) (s : State) :
    Enters s (declareMethod owner h s).2 ⟨[], [], [h]⟩ ⟨[], [], [(declareMethod owner h s).1]⟩ := by
  unfold declareMethod
  cases handle : h.binding with
  | some id =>
    obtain ⟨grown, kept, heads, fields, -, known, counts, size, methodSize, typeSize, others⟩ :=
      Enters.empty s
    have unchanged : [h].countP (·.binding.isNone) = 0 := by simp [handle]
    refine ⟨grown, kept, heads, fields, .kept (n := id.index) ?_, known, ?_, size, ?_, typeSize,
      others⟩
    · rw [MethodHead.key, handle]
      rfl
    · rw [unchanged]
      exact counts
    · rw [unchanged]
      exact methodSize
  | none =>
    have one : [h].countP (·.binding.isNone) = 1 := by simp [handle]
    have size : ∀ m, (s.table.addMethod m).2.methods.size = s.table.methods.size + 1 := fun m => by
      simp [BindingTable.addMethod]
    refine ⟨.addMethod s.table _, .addMethod s.table _, .nil, .nil,
      .fresh (n := s.table.methods.size) rfl (Nat.le_refl _) ?_, fun _ hh =>
        absurd hh List.not_mem_nil, ?_,
      rfl, ?_, Nat.le_refl _, fun _ low high => absurd low (Nat.not_le_of_lt high)⟩
    · exact Nat.lt_of_lt_of_eq (Nat.lt_succ_self _) (size _).symm
    · rw [one]
      rfl
    · rw [one]
      exact size _

/-- A type gets an entry unless it has a handle, and that handle must be in the table. -/
theorem declareHead_enters {qualifier : Option String} {outer : Option TypeId} {d d' : TypeDecl}
    {id : TypeId} {s s' : State} (run : declareHead qualifier outer d s = (.done (d', id), s')) :
    Enters s s' ⟨[d.head], [], []⟩ ⟨[d'.head], [], []⟩ ∧ d.head.FillsTo d'.head ∧
      d' = ⟨{ d.head with binding := some id }, d.members⟩ := by
  cases declareHead_declared run with
  -- A head that has a handle is left alone, and its type is known already.
  | kept handle found =>
    obtain ⟨grown, kept, -, fields, methods, -, counts, size, methodSize, typeSize, others⟩ :=
      Enters.empty s
    have unchanged : [d.head].countP (·.binding.isNone) = 0 := by simp [handle]
    have known : id.index < s.table.types.size :=
      (Array.getElem?_eq_some_iff.mp (BindingTable.typeAt_eq_ok.mp found)).1
    refine ⟨⟨grown, kept, .kept (TypeHead.key_of_binding handle), fields, methods,
      List.forall_mem_singleton.mpr ⟨id, handle, known⟩, ?_, size, methodSize, ?_,
      fun _ low high => absurd low (Nat.not_le_of_lt high)⟩, .refl _, ?_⟩
    · rw [unchanged]
      exact counts
    · rw [unchanged]
      exact typeSize
    · rw [← handle]
      obtain ⟨h, ms⟩ := d
      rfl
  | @entered _ t' handle added =>
    obtain ⟨grown, above, -⟩ := added ▸ s.table.addType_spec _
    obtain ⟨kept, sameFields, sameMethods, size, enums⟩ := added ▸ s.table.addType_adds _
    have one : [d.head].countP (·.binding.isNone) = 1 := by simp [handle]
    have known := Nat.lt_of_lt_of_eq (Nat.lt_succ_self _) size.symm
    refine ⟨⟨grown, kept, .fresh rfl above known, .nil, .nil,
      List.forall_mem_singleton.mpr ⟨_, rfl, known⟩, ?_, ?_, ?_, ?_, fun i low high => ?_⟩,
      ⟨rfl, fun id bound => absurd bound (by simp [handle]), ?_⟩, rfl⟩
    · rw [one]
      rfl
    · show t'.vars.size = _
      rw [sameFields]
      rfl
    · show t'.methods.size = _
      rw [sameMethods]
      rfl
    · show _ ≤ t'.types.size
      rw [one, size]
      exact Nat.succ_le_succ above
    · replace high : i < t'.types.size := high
      rw [size] at high
      rcases Nat.lt_succ_iff_lt_or_eq.mp high with before | last
      · exact .inr (enums i low before)
      · exact .inl ⟨_, List.mem_singleton.mpr rfl, by rw [last]⟩
    · refine .cons ?_ (List.forall₂_same.mpr fun _ _ => .same _)
      rw [handle]
      exact .ofType _ _

/-! ## The walk -/

/-- A member is declared with the types in it. -/
theorem declareMember_enters {nested : TypeDecl → Edit State ResolveError TypeDecl}
    (single : ∀ d d' s s', nested d s = (.done d', s') →
    Enters s s' (.ofTypes d.preorder) (.ofTypes d'.preorder)) {owner : TypeId}
    {isInterfaceLike : Bool} {m m' : Member} {s s' : State}
    (run : declareMember nested owner isInterfaceLike m s = (.done m', s')) :
    Enters s s' m.listing m'.listing := by
  cases declareMember_declared run with
  | type declared =>
    have alone : ∀ d : TypeDecl, (Member.type d).listing = .ofTypes d.preorder := by
      intro d
      show Listing.mk _ _ _ = _
      simp [Listing.ofTypes, Listing.ofContents, Member.contents, Contents.ofTypes, Member.asType]
    rw [alone, alone]
    exact single _ _ _ _ declared
  | field f => exact (declareField_enters owner isInterfaceLike f s).append (.empty _)
  | method h body =>
    rw [Member.listing, Member.listing, Member.ofContents_method, Member.ofContents_method]
    exact (declareMethod_enters owner h s).append (.empty _)
  | initializer i =>
    rw [Member.listing, Member.ofContents_initializer]
    exact (Enters.empty s).append (.empty s)

/-- The members of a type are entered after its head, those of types inside it included. -/
theorem declareContents_enters {nested : String → TypeDecl → Edit State ResolveError TypeDecl}
    (single : ∀ name d d' s s', nested name d s = (.done d', s') →
    Enters s s' (.ofTypes d.preorder) (.ofTypes d'.preorder)) {id : TypeId} {d d' : TypeDecl}
    {s s' : State} (run : declareContents nested id d s = (.done d', s')) :
    d'.head = d.head ∧ Enters s s'
      (.flatMap Member.listing d.members ++ .flatMap Member.bodyListing d.members)
      (.flatMap Member.listing d'.members ++ .flatMap Member.bodyListing d'.members) := by
  obtain ⟨descriptor, ms, s₁, -, hms, hbodies⟩ := declareContents_walks run
  obtain ⟨ms', hms', rfl⟩ := Edit.map_eq_done.mp hbodies
  have nestedSpec := single descriptor.name
  have members := Enters.list Member.listing
    (fun _ _ _ _ run => declareMember_enters nestedSpec run) hms
  have bodies := Edit.forall₂_of_done (R := fun m m' => m'.localTypes = m.localTypes)
    (fun _ _ _ _ run => declareMember_localTypes run) hms
  have locals := Enters.list Member.bodyListing
    (fun m m' s s' run => by
      obtain ⟨listed, -, -⟩ := Member.editLocalTypes_done run
      have enters := Enters.list (fun d => Listing.ofTypes d.preorder) nestedSpec listed
      rw [← Listing.ofTypes_flatMap, ← Listing.ofTypes_flatMap] at enters
      exact enters) hms'
  -- The first walk leaves the bodies alone, and the second everything else.
  have kept : Listing.flatMap Member.listing ms' = .flatMap Member.listing ms := by
    refine Listing.flatMap_of_forall₂ (Edit.forall₂_of_done (fun m m' s s' run => ?_) hms')
    obtain ⟨-, outline, type⟩ := Member.editLocalTypes_done run
    have own : Listing.ofContents m'.contents.own = .ofContents m.contents.own := by
      rw [Member.contents_of_outline outline]
    rw [Member.listing, Member.listing, type]
    exact congrArg (· ++ _) own
  have same : Listing.flatMap Member.bodyListing ms = .flatMap Member.bodyListing d.members := by
    refine Listing.flatMap_of_forall₂ (bodies.imp fun m m' same => ?_)
    rw [Member.bodyListing, Member.bodyListing, same]
  refine ⟨rfl, ?_⟩
  show Enters s s' _ (.flatMap Member.listing ms' ++ .flatMap Member.bodyListing ms')
  rw [kept, ← same]
  exact members.append locals

/-- Declaring a type enters it and everything inside it. -/
theorem declareType_enters {levels : Nat} {qualifier : Option String} {outer : Option TypeId}
    {d d' : TypeDecl} {s s' : State}
    (run : declareType levels qualifier outer d s = (.done d', s')) :
    Enters s s' (.ofTypes d.preorder) (.ofTypes d'.preorder) := by
  induction levels generalizing qualifier outer d d' s s' with
  | zero => exact absurd run Edit.stop_ne_done
  | succ levels ih =>
    obtain ⟨⟨d₁, id⟩, s₁, hhead, hcontents⟩ := Edit.andThen_eq_done.mp run
    obtain ⟨head, -, rfl⟩ := declareHead_enters hhead
    obtain ⟨sameHead, contents⟩ := declareContents_enters (fun _ _ _ _ _ run => ih run) hcontents
    rw [← sameHead] at head
    exact (head.append contents).alike d.listing_alike d'.listing_alike

/-! ## What is declared when -/

/-- The type that a declared member is was declared as a type. -/
theorem declareMember_nested {nested : TypeDecl → Edit State ResolveError TypeDecl} {owner : TypeId}
    {isInterfaceLike : Bool} {m m' : Member} {c' : TypeDecl} {s s' : State}
    (run : declareMember nested owner isInterfaceLike m s = (.done m', s'))
    (isType : m'.asType = some c') :
    ∃ c, m.asType = some c ∧ nested c s = (.done c', s') := by
  cases declareMember_declared run with
  | type declared =>
    cases isType
    exact ⟨_, rfl, declared⟩
  | field f => cases isType
  | method h body => cases isType
  | initializer i => cases isType

/-- The members of a declared type are declared one after the other, and the types inside at some
point, inside the type of which the table knows the name. -/
theorem declareContents_steps {nested : String → TypeDecl → Edit State ResolveError TypeDecl}
    (single : ∀ name d d' s s', nested name d s = (.done d', s') →
    Enters s s' (.ofTypes d.preorder) (.ofTypes d'.preorder)) {id : TypeId} {d d' : TypeDecl}
    {s s' : State} (run : declareContents nested id d s = (.done d', s')) :
    ∃ descriptor, s.table.typeAt id = .ok descriptor ∧ s.table.Continues s'.table ∧
      (∀ m' ∈ d'.members, ∃ m ∈ d.members, ∃ m₁ s₁ s₂,
        declareMember (nested descriptor.name) id d.isInterfaceLike m s₁ = (.done m₁, s₂) ∧
        s₂.table.Continues s'.table ∧ m'.contents.own = m₁.contents.own) ∧
      ∀ x' ∈ d'.inner, ∃ x ∈ d.inner, ∃ s₁ s₂,
        nested descriptor.name x s₁ = (.done x', s₂) ∧ s₂.table.Continues s'.table := by
  obtain ⟨descriptor, ms, s₁, found, hms, hbodies⟩ := declareContents_walks run
  have nestedSpec := single descriptor.name
  obtain ⟨first, members⟩ := Edit.exists_done_of_mem (R := fun s s' => s.table.Continues s'.table)
    (fun _ => .refl _) (fun _ _ _ => .trans)
    (fun _ _ _ _ run => (declareMember_enters nestedSpec run).continues) hms
  -- The second walk goes into the bodies only: it leaves outlines and member types.
  obtain ⟨listed, -, outlines, types⟩ := TypeDecl.editLocalTypes_done hbodies
  obtain ⟨second, bodies⟩ := Edit.exists_done_of_mem (R := fun s s' => s.table.Continues s'.table)
    (fun _ => .refl _) (fun _ _ _ => .trans)
      (fun _ _ _ _ run => (nestedSpec _ _ _ _ run).continues) listed
  refine ⟨descriptor, found, first.trans second, fun m' hm' => ?_, fun x' hx' => ?_⟩
  · have outline : m'.outline ∈ ms.map Member.outline := by
      rw [← outlines]
      exact List.mem_map_of_mem hm'
    obtain ⟨m₁, hm₁, same⟩ := List.mem_map.mp outline
    obtain ⟨m, hm, s₂, s₃, -, run, later⟩ := members m₁ hm₁
    exact ⟨m, hm, m₁, s₂, s₃, run, later.trans second, Member.contents_of_outline same.symm⟩
  · rcases List.mem_append.mp hx' with hx' | hx'
    · rw [types] at hx'
      obtain ⟨m₁, hm₁, isType⟩ := List.mem_filterMap.mp hx'
      obtain ⟨m, hm, s₂, s₃, -, run, later⟩ := members m₁ hm₁
      obtain ⟨x, hx, run⟩ := declareMember_nested run isType
      exact ⟨x, TypeDecl.mem_inner.mpr ⟨m, hm, List.mem_append_left _ (Option.mem_toList.mpr hx)⟩,
        s₂, s₃, run, later.trans second⟩
    · obtain ⟨x, hx, s₂, s₃, -, run, later⟩ := bodies x' hx'
      have same := declareMembers_localTypes hms
      replace hx : x ∈ ms.flatMap Member.localTypes := hx
      rw [same] at hx
      exact ⟨x, List.mem_append_right _ hx, s₂, s₃, run, later⟩

/-! ## Filled trees -/

/-- Declaring a field fills in handles only. -/
theorem declareField_fills (owner : TypeId) (isInterfaceLike : Bool) (f : FieldDecl) (s : State) :
    f.contents.FillsTo (declareField owner isInterfaceLike f s).1.contents := by
  have fragments : ∀ (modifiers : Modifiers) (fs : List Fragment) (s : State), List.Forall₂
      (fun g g' => (g.slot f.type f.modifiers).FillsTo (g'.slot f.type f.modifiers) ∧
        List.Forall₂ Handle.Keeps g.handles g'.handles) fs
      (fs.mapM (declareFragment owner modifiers f.type) s).1 := by
    intro modifiers fs
    induction fs with
    | nil => exact fun s => .nil
    | cons g gs ih =>
      intro s
      rw [mapM_cons_state]
      refine .cons ?_ (ih _)
      have initializers :
          ∀ e : Option Expr, List.Forall₂ Handle.Keeps (Expr.handlesIn e) (Expr.handlesIn e) :=
        fun _ => List.forall₂_same.mpr fun _ _ => .same _
      obtain ⟨span, name, initializer, _ | v⟩ := g
      · exact ⟨⟨rfl, rfl, rfl, fun v bound => absurd bound (by simp [Fragment.slot])⟩,
          List.rel_append (initializers initializer) (.cons (.ofVariable _ _) .nil)⟩
      · exact ⟨.refl _, List.forall₂_same.mpr fun _ _ => .same _⟩
  have all := fragments (if isInterfaceLike then f.modifiers.union .interfaceField else f.modifiers)
    f.fragments s
  refine ⟨?_, .nil, .nil, ?_⟩
  · exact List.forall₂_map_left_iff.mpr
      (List.forall₂_map_right_iff.mpr (all.imp fun _ _ one => one.1))
  · exact List.rel_flatMap (all.imp fun _ _ one => one) fun _ _ one => one.2

/-- Declaring a method fills in its handle only. -/
theorem declareMethod_fills (owner : TypeId) (h : MethodHead) (body : Option Block) (s : State) :
    (Member.method ⟨h, body⟩).contents.FillsTo
      (Member.method ⟨(declareMethod owner h s).1, body⟩).contents := by
  have parameters := declareMethod_parameters owner h s
  have head : h.contents.FillsTo (declareMethod owner h s).1.contents := by
    unfold declareMethod
    cases handle : h.binding with
    | some id => exact .refl _
    | none =>
      refine ⟨.nil, .cons ⟨rfl, fun m bound => absurd bound (by simp [handle])⟩ .nil, .nil,
        .cons ?_ .nil⟩
      rw [handle]
      exact .ofMethod h.name _
  rcases body with _ | ⟨i, ss⟩
  · rw [Member.contents, Member.contents, parameters]
    exact head.append (.refl _)
  · rw [Member.contents, Member.contents, parameters]
    exact (head.append (.refl _)).append (.refl _)

/-- A member keeps its local types, and in everything else handles are filled in. -/
theorem declareMember_fills {nested : TypeDecl → Edit State ResolveError TypeDecl}
    (single : ∀ d d' s s', nested d s = (.done d', s') → d.AllFillsTo d')
    {owner : TypeId} {isInterfaceLike : Bool} {m m' : Member} {s s' : State}
    (run : declareMember nested owner isInterfaceLike m s = (.done m', s')) :
    m.contents.FillsTo m'.contents ∧ m'.localTypes = m.localTypes ∧
      List.Forall₂ TypeDecl.AllFillsTo m.asType.toList m'.asType.toList := by
  cases declareMember_declared run with
  | type declared => exact ⟨⟨.nil, .nil, .nil, .nil⟩, rfl, .cons (single _ _ _ _ declared) .nil⟩
  | field f => exact ⟨declareField_fills owner isInterfaceLike f s, rfl, .nil⟩
  | method h body => exact ⟨declareMethod_fills owner h body s, rfl, .nil⟩
  | initializer i => exact ⟨.refl _, rfl, .nil⟩

/-- Declaring the members of a type fills in their handles only. -/
theorem declareContents_fills {nested : String → TypeDecl → Edit State ResolveError TypeDecl}
    (single : ∀ name d d' s s', nested name d s = (.done d', s') → d.AllFillsTo d') {id : TypeId}
    {d d' : TypeDecl} {s s' : State} (run : declareContents nested id d s = (.done d', s')) :
    d'.head = d.head ∧ List.Forall₂ (fun m m' => m.contents.FillsTo m'.contents ∧
      List.Forall₂ TypeDecl.AllFillsTo m.inner m'.inner) d.members d'.members := by
  obtain ⟨descriptor, ms, s₁, -, hms, hbodies⟩ := declareContents_walks run
  obtain ⟨ms', hms', rfl⟩ := Edit.map_eq_done.mp hbodies
  have nestedSpec := single descriptor.name
  have members := Edit.forall₂_of_done (R := fun m m' => m.contents.FillsTo m'.contents ∧
      m'.localTypes = m.localTypes ∧
        List.Forall₂ TypeDecl.AllFillsTo m.asType.toList m'.asType.toList)
    (fun _ _ _ _ run => declareMember_fills nestedSpec run) hms
  have locals := Edit.forall₂_of_done (R := fun m m' => m'.contents.own = m.contents.own ∧
      m'.asType = m.asType ∧ List.Forall₂ TypeDecl.AllFillsTo m.localTypes m'.localTypes)
    (fun _ _ _ _ run => by
      obtain ⟨listed, outline, type⟩ := Member.editLocalTypes_done run
      exact ⟨Member.contents_of_outline outline, type, Edit.forall₂_of_done nestedSpec listed⟩) hms'
  refine ⟨rfl, forall₂_trans ?_ members locals⟩
  rintro m m₁ m' ⟨fills, bodies, types⟩ ⟨own, type, inBodies⟩
  refine ⟨fills.trans (.of_own own), ?_⟩
  rw [Member.inner, Member.inner, type, ← bodies]
  exact List.rel_append types inBodies

/-- Declaring fills in the handles that are missing in a type and in those inside it. -/
theorem declareType_fills {levels : Nat} {qualifier : Option String} {outer : Option TypeId}
    {d d' : TypeDecl} {s s' : State}
    (run : declareType levels qualifier outer d s = (.done d', s')) : d.AllFillsTo d' := by
  induction levels generalizing qualifier outer d d' s s' with
  | zero => exact absurd run Edit.stop_ne_done
  | succ levels ih =>
    obtain ⟨⟨d₁, id⟩, s₁, hhead, hcontents⟩ := Edit.andThen_eq_done.mp run
    obtain ⟨-, head, rfl⟩ := declareHead_enters hhead
    obtain ⟨sameHead, members⟩ := declareContents_fills (fun _ _ _ _ _ run => ih run) hcontents
    rw [← sameHead] at head
    have constants : d'.head.constantHandles = d.head.constantHandles := by rw [sameHead]; rfl
    have inner : List.Forall₂ TypeDecl.AllFillsTo (d.members.flatMap Member.inner)
        (d'.members.flatMap Member.inner) := List.rel_flatMap members fun _ _ one => one.2
    unfold TypeDecl.AllFillsTo
    rw [TypeDecl.preorder_cons, TypeDecl.preorder_cons, d.contents_nests.types,
      d'.contents_nests.types]
    refine .cons ⟨head, ?_, ?_⟩ (List.rel_flatMap inner fun _ _ one => one)
    · rw [TypeDecl.contents, TypeDecl.contents, constants]
      exact Contents.FillsTo.append (.refl _)
        (Member.contentsOf_fills (members.imp fun _ _ one => one.1))
    · unfold Contents.InnerFillsTo
      rw [d.contents_nests.inner, d'.contents_nests.inner]
      exact inner.imp fun _ _ one => one.head

end Binding

end ClassInit
