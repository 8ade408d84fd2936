import ClassInit.Proofs.Lowering.Literals
import ClassInit.Proofs.Tree.Nesting

/-!
# Types that have nothing left to lower

A settled type has no initializer block, keeps only initializers that stay, and every constructor
that it needs calls another constructor (`Settled`). Lowering a type leaves it as it is if it and
all types in it are settled, takes no node id and enters nothing (`lowerType_returns`).
-/

set_option autoImplicit false

namespace ClassInit.Lowering

/-! ## Settled types -/

/-- Whether a body calls another constructor: a sibling first, or one of the superclass. -/
def callsConstructor (ss : List Stmt) : Bool := delegates ss || ss.any Stmt.isSuperCall

/-- Whether a member, if it is a constructor, has a body that calls another constructor. -/
def isComplete : Member → Bool
  | .method ⟨h, some b⟩ => !h.isConstructor || callsConstructor b.statements
  | .method ⟨h, none⟩ => !h.isConstructor
  | .type _ => true
  | .initializer _ => true
  | .field _ => true

/-- Whether a fragment, if it has an initializer, keeps it. -/
def StaysPut (t : BindingTable) (encoding : LiteralEncoding) (once : Bool) (f : Fragment) : Prop :=
  ∀ e, f.initializer = some e →
    once = true ∧ ∃ v, f.binding = some v ∧ classify t encoding e v = .ok .keep

/-- A type that has an entry in the table and that its own lowering leaves as it is. -/
structure Settled (options : Options) (t : BindingTable) (type : TypeId)
    (descriptor : TypeDescriptor) (d : TypeDecl) : Prop where
  bound : d.head.binding = some type
  described : t.typeAt type = .ok descriptor
  noBlocks : ∀ m ∈ d.members, m.asInitializer = none
  fields : ∀ f, Member.field f ∈ d.members → ∀ g ∈ f.fragments,
    StaysPut t options.literalEncoding (isOnce descriptor.isInterface f) g
  constructors : descriptor.isInterface = false →
    (∃ m ∈ d.members, Member.isConstructor m = true) ∧ ∀ m ∈ d.members, isComplete m = true

/-! ## States that differ in harmless counts only -/

/-- The counts of what lowering changes: assignments, folded literals, blocks, and synthesized
members. -/
def Stats.changes (c : Stats) : List Nat :=
  [c.instanceAssignments, c.staticAssignments, c.foldedLiterals, c.initializerBlocks,
    c.defaultConstructors, c.classInitializers]

/-- The second state is what a run that changes nothing leaves of the first. -/
structure State.Quiet (s s' : State) : Prop where
  table : s'.table = s.table
  supply : s'.supply = s.supply
  changes : s'.stats.changes = s.stats.changes

theorem State.Quiet.refl (s : State) : s.Quiet s := ⟨rfl, rfl, rfl⟩

variable {options : Options} {name : String} {type : TypeId} {descriptor : TypeDescriptor}
variable {s₀ : State}

theorem count_returns {f : Stats → Stats} (quiet : ∀ c, (f c).changes = c.changes) :
    Step.Returns s₀.Quiet (liftM (count f) : Step Unit) () := by
  intro s same
  exact ⟨{ s with stats := f s.stats }, rfl, same.table, same.supply,
    (quiet s.stats).trans same.changes⟩

theorem editBy_returns {α : Type} {left a : α} {m : Step α} (h : Step.Returns s₀.Quiet m a) :
    (editBy left m).Returns s₀.Quiet a := by
  intro s same
  obtain ⟨s', run, same'⟩ := h s same
  exact ⟨s', editBy_eq_done.mpr run, same'⟩

/-! ## Collecting -/

theorem collectFragment_returns {once : Bool} {type : TypeRef} {lists : InitLists} {f : Fragment}
    (stays : StaysPut s₀.table options.literalEncoding once f) :
    Step.Returns s₀.Quiet (collectFragment options name once type lists f) (f, lists) := by
  unfold collectFragment
  split
  · exact Step.Returns.pure _
  · rename_i init unbound
    -- A fragment that keeps its initializer has a handle, so the run does not stop here.
    obtain ⟨-, v, bound, -⟩ := stays _ init
    rw [unbound] at bound
    cases bound
  · rename_i e v init bound
    obtain ⟨isOnce, v', bound', keep⟩ := stays e init
    rw [bound] at bound'
    cases bound'
    have kept : Step.Returns s₀.Quiet (eligibility options name once f v e) .keep := by
      intro s same
      refine ⟨s, eligibility_eq_ok.mpr ⟨?_, rfl⟩, same⟩
      rw [isOnce, if_pos rfl, same.table]
      exact keep
    exact kept.bind (Step.Returns.bind (count_returns fun _ => rfl) (Step.Returns.pure _))

theorem collectFragments_returns {once : Bool} {type : TypeRef} {lists : InitLists}
    {fs : List Fragment} (stay : ∀ f ∈ fs, StaysPut s₀.table options.literalEncoding once f) :
    Step.Returns s₀.Quiet (collectFragments options name once type lists fs) (fs, lists) := by
  induction fs with
  | nil => exact Step.Returns.pure _
  | cons f fs ih =>
    have rest := ih fun g hg => stay g (List.mem_cons_of_mem _ hg)
    exact (collectFragment_returns (stay f List.mem_cons_self)).bind
      (rest.bind (Step.Returns.pure _))

theorem collectMembers_returns {isInterface : Bool} {lists : InitLists} {ms : List Member}
    (noBlocks : ∀ m ∈ ms, m.asInitializer = none)
    (stay : ∀ f, Member.field f ∈ ms → ∀ g ∈ f.fragments,
      StaysPut s₀.table options.literalEncoding (isOnce isInterface f) g) :
    (collectMembers options name isInterface lists ms).Returns s₀.Quiet (ms, lists) := by
  induction ms with
  | nil => exact Edit.Returns.keep _
  | cons m ms ih =>
    have rest := ih (fun m hm => noBlocks m (List.mem_cons_of_mem _ hm))
      fun f hf => stay f (List.mem_cons_of_mem _ hf)
    cases m with
    | initializer i =>
      have block := noBlocks _ List.mem_cons_self
      cases block
    | field f =>
      have field :
          Step.Returns s₀.Quiet (collectField options name isInterface lists f) (f, lists) :=
        (collectFragments_returns (stay f List.mem_cons_self)).bind (Step.Returns.pure _)
      exact (editBy_returns field).andThen (rest.map _)
    | type d => exact rest.map _
    | method m => exact rest.map _

/-! ## Constructors -/

/-- A constructor that calls another constructor stays as it is if there is nothing to put in. -/
theorem lowerConstructor_returns {h : MethodHead} {b : Block}
    (isConstructor : h.isConstructor = true) (calls : callsConstructor b.statements = true) :
    Step.Returns s₀.Quiet (lowerConstructor name type [] ⟨h, some b⟩) ⟨h, some b⟩ := by
  obtain ⟨i, ss⟩ := b
  have designated : (MethodDecl.mk h (some ⟨i, ss⟩)).isDesignated = !delegates ss := by
    show (h.isConstructor && !delegates ss) = _
    rw [isConstructor, Bool.true_and]
  simp only [lowerConstructor, designated]
  split
  · rename_i hdesignated
    have hdesignated : delegates ss = false := by simpa using hdesignated
    have anySuper : ss.any Stmt.isSuperCall = true := by
      rw [callsConstructor, hdesignated, Bool.false_or] at calls
      exact calls
    have statements :
        Step.Returns s₀.Quiet (initialized name type [] ⟨h, some ⟨i, ss⟩⟩ ss) ss := by
      unfold initialized
      split
      · intro s same
        -- Nothing is put in between the two halves of the body.
        refine ⟨s, Step.bind_eq_ok.mpr ⟨[], s, mint_eq_ok.mpr ⟨?_, ?_⟩, ?_⟩, same⟩
        · rw [Stmt.copyAll]
          rfl
        · rw [Stmt.copyAll]
          rfl
        · rw [insertAfter, List.append_nil, List.take_append_drop]
          rfl
      · rename_i hindex
        have none : ∀ s ∈ ss, s.isSuperCall = false := List.findIdx?_eq_none_iff.mp hindex
        obtain ⟨s, hs, isCall⟩ := List.any_eq_true.mp anySuper
        rw [none s hs] at isCall
        cases isCall
    exact statements.bind (Step.Returns.bind (count_returns fun _ => rfl) (Step.Returns.pure _))
  · exact Step.Returns.bind (count_returns fun _ => rfl) (Step.Returns.pure _)

theorem lowerMember_returns {m : Member} (complete : isComplete m = true) :
    (lowerMember name type [] m).Returns s₀.Quiet m := by
  rcases m with d | ⟨h, b⟩ | i | f
  · exact Edit.Returns.keep _
  · unfold lowerMember
    dsimp only
    split
    · rename_i isConstructor
      cases b with
      | none =>
        simp only [isComplete, isConstructor, Bool.not_true] at complete
        cases complete
      | some b =>
        simp only [isComplete, isConstructor, Bool.not_true, Bool.false_or] at complete
        exact editBy_returns ((lowerConstructor_returns isConstructor complete).bind
          (Step.Returns.pure _))
    · exact Edit.Returns.keep _
  · exact Edit.Returns.keep _
  · exact Edit.Returns.keep _

/-! ## Types -/

/-- Its own lowering leaves a settled type as it is. -/
theorem lowerOwn_returns {d : TypeDecl} (settled : Settled options s₀.table type descriptor d) :
    (lowerOwn options type descriptor.isInterface d).Returns s₀.Quiet d := by
  obtain ⟨h, ms⟩ := d
  have collected : (collect options descriptor.isInterface ⟨h, ms⟩).Returns s₀.Quiet
      (⟨h, ms⟩, InitLists.empty) :=
    (collectMembers_returns settled.noBlocks settled.fields).map _
  refine collected.andThen (Edit.Returns.seq (a := ⟨h, ms⟩) ?_ (Edit.Returns.keep _))
  split
  · exact Edit.Returns.keep _
  · rename_i isClass
    obtain ⟨⟨m, hm, isConstructor⟩, complete⟩ :=
      settled.constructors (Bool.eq_false_iff.mpr isClass)
    -- A settled class declares a constructor, so none is made for it.
    have declares : (TypeDecl.mk h ms).constructors.isEmpty = false := by
      rw [List.isEmpty_eq_false_iff]
      intro none
      have notConstructor := constructors_eq_nil_iff.mp none m hm
      rw [isConstructor] at notConstructor
      cases notConstructor
    have members : (lowerConstructors type [] ⟨h, ms⟩).Returns s₀.Quiet ⟨h, ms⟩ :=
      (Edit.Returns.list fun m hm => lowerMember_returns (complete m hm)).map (TypeDecl.mk h)
    refine members.seq ?_
    rw [declares]
    exact Edit.Returns.keep _

theorem lowerNested_returns {nested : TypeDecl → Edit State Failure TypeDecl} {d : TypeDecl}
    (stay : ∀ x ∈ d.inner, (nested x).Returns s₀.Quiet x) :
    (lowerNested nested d).Returns s₀.Quiet d := by
  obtain ⟨h, ms⟩ := d
  have members : (Edit.list (lowerMemberType nested) ms).Returns s₀.Quiet ms := by
    refine Edit.Returns.list fun m hm => ?_
    cases m with
    | type x =>
      have inside : x ∈ (TypeDecl.mk h ms).inner :=
        TypeDecl.mem_inner.mpr ⟨.type x, hm, List.mem_cons_self⟩
      exact (stay x inside).map _
    | method m | initializer i | field f => exact Edit.Returns.keep _
  have bodies : (TypeDecl.editLocalTypes nested ⟨h, ms⟩).Returns s₀.Quiet ⟨h, ms⟩ :=
    TypeDecl.editLocalTypes_returns _ fun x hx => stay x (List.mem_append_right _ hx)
  exact (members.map (TypeDecl.mk h)).seq bodies

theorem identify_returns {d : TypeDecl} (settled : Settled options s₀.table type descriptor d) :
    Step.Returns s₀.Quiet (identify d) (type, descriptor.isInterface) := by
  unfold identify
  rw [settled.bound]
  have asked : Step.Returns s₀.Quiet
      (ask d.name d.head.span fun t => t.isInterface type) descriptor.isInterface := by
    intro s same
    refine ⟨s, ask_eq_ok.mpr ⟨?_, rfl⟩, same⟩
    rw [BindingTable.isInterface, same.table, settled.described]
    rfl
  exact asked.bind (Step.Returns.pure _)

/-- Lowering leaves a type as it is if it and everything in it is settled and fits into the levels
that are left. -/
theorem lowerType_returns {levels : Nat} {d : TypeDecl} (fits : d.Fits levels)
    (settled : ∀ x ∈ d.declarations, ∃ type descriptor,
      Settled options s₀.table type descriptor x) :
    (lowerType options levels d).Returns s₀.Quiet d := by
  induction levels generalizing d with
  | zero => exact fits.elim
  | succ levels ih =>
    obtain ⟨type, descriptor, self⟩ := settled d d.mem_declarations_self
    have inner : ∀ x ∈ d.inner, (lowerType options levels x).Returns s₀.Quiet x := by
      intro x hx
      refine ih (fits x hx) fun y hy => settled y ?_
      rw [TypeDecl.declarations_eq]
      exact List.mem_cons_of_mem _ (List.mem_flatMap.mpr ⟨x, hx, hy⟩)
    have counted : (countType d).Returns s₀.Quiet d := fun s same =>
      ⟨{ s with stats := { s.stats with types := s.stats.types + 1 } }, rfl, same.table,
        same.supply,
        same.changes⟩
    have whole := ((lowerNested_returns inner).seq (lowerOwn_returns self)).seq counted
    intro s same
    obtain ⟨s₁, identified, same₁⟩ := identify_returns self s same
    obtain ⟨s', run, same'⟩ := whole s₁ same₁
    refine ⟨s', ?_, same'⟩
    unfold lowerType
    rw [identified]
    exact run

end ClassInit.Lowering
