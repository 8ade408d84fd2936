import ClassInit.Proofs.Binding.Rooted
import ClassInit.Proofs.Binding.Units
import ClassInit.Proofs.Tree.Outline

/-!
# When binding fails

A unit without handles can be bound with a rooted table unless a type in it lies too deep, and this
is then the failure (`CompilationUnit.bind_succeeds_iff`, `CompilationUnit.tooDeep_of_bind`). What
binding leaves is ready to be lowered: every type and every field has an entry, and every class and
enum has a superclass (`CompilationUnit.knownTable_ready`).
-/

set_option autoImplicit false

namespace ClassInit

/-! ## Units without handles -/

/-- Neither the head nor its superclass clause carries a handle. -/
structure TypeHead.Unbound (h : TypeHead) : Prop where
  binding : h.binding = none
  clause : ∀ c, h.superclass = some c → c.binding = none

/-- No type, no superclass clause and no field of the unit carries a handle. -/
structure CompilationUnit.Unbound (u : CompilationUnit) : Prop where
  heads : ∀ h ∈ u.heads, h.Unbound
  fields : ∀ s ∈ u.allSlots, s.fragment.binding = none

/-- The error tells of a type that lies too deep in the unit. -/
def CompilationUnit.TooDeep (u : CompilationUnit) (e : ResolveError) : Prop :=
  ∃ x : TypeDecl, x.LiesAtLevel (Limits.typeNesting + 1) u ∧ e = .nestingTooDeep x.name

namespace Binding

variable {low : Nat} {s : State}

/-! ## Declaring -/

theorem declareFragment_rooted (owner : TypeId) (modifiers : Modifiers) (type : TypeRef)
    (f : Fragment) (rooted : s.table.Rooted low) :
    (declareFragment owner modifiers type f s).2.table.Rooted low := by
  unfold declareFragment
  cases f.binding with
  | some v => exact rooted
  | none => exact rooted.of_types rfl

theorem declareMethod_rooted (owner : TypeId) (h : MethodHead) (rooted : s.table.Rooted low) :
    (declareMethod owner h s).2.table.Rooted low := by
  unfold declareMethod
  cases h.binding with
  | some id => exact rooted
  | none => exact rooted.of_types rfl

/-- The head of a type without handle gets an entry. -/
theorem declareHead_unbound (qualifier : Option String) (outer : Option TypeId) {d : TypeDecl}
    (unbound : d.head.binding = none) (rooted : s.table.Rooted low) :
    ∃ id descriptor s', declareHead qualifier outer d s =
        (.done ({ d with head := { d.head with binding := some id } }, id), s') ∧
      s'.table.typeAt id = .ok descriptor ∧ s'.table.Rooted low := by
  obtain ⟨-, -, superclass, found⟩ := s.table.addType_spec
    ⟨s.table.uniqueTypeName qualifier d.head.name, d.head.kind, d.head.modifiers, none, outer⟩
  unfold declareHead
  rw [unbound]
  exact ⟨_, _, _, rfl, found, rooted.addType rfl (rooted.uniqueTypeName_ne qualifier d.head.name)⟩

/-- What declaring makes of a type that fits into so many levels. -/
structure Declared (levels : Nat) (d d' : TypeDecl) : Prop where
  before : d.Fits levels
  after : d'.Fits levels
  clauses : ∀ x ∈ d'.declarations, ∀ c, x.head.superclass = some c → c.binding = none

theorem declareMember_ends {nested : TypeDecl → Edit State ResolveError TypeDecl}
    {R : TypeDecl → TypeDecl → Prop} {E : ResolveError → Prop} {owner : TypeId}
    {isInterfaceLike : Bool} {m : Member}
    (types : ∀ x ∈ m.asType, (nested x).Ends (fun s => s.table.Rooted low) (R x) E) :
    (declareMember nested owner isInterfaceLike m).Ends (fun s => s.table.Rooted low)
      (fun m' => List.Forall₂ R m.asType.toList m'.asType.toList ∧ m'.localTypes = m.localTypes)
      E := by
  cases m with
  | type d =>
    rw [declareMember]
    refine Edit.Ends.map ((types d rfl).imp (fun d' one => ?_) fun _ => id)
    exact ⟨.cons one .nil, rfl⟩
  | field f =>
    rw [declareMember]
    refine Edit.Ends.map (Edit.Ends.ofState fun s rooted => ⟨⟨.nil, rfl⟩, ?_⟩)
    exact (mapM_keeps (R := fun _ _ => True) (fun g s rooted => ⟨trivial,
      declareFragment_rooted owner _ f.type g rooted⟩) f.fragments s rooted).2
  | method m =>
    obtain ⟨h, body⟩ := m
    rw [declareMember]
    exact Edit.Ends.map (Edit.Ends.ofState fun s rooted => ⟨⟨.nil, rfl⟩,
      declareMethod_rooted owner h rooted⟩)
  | initializer i => exact Edit.Ends.keep ⟨.nil, rfl⟩

/-- Once the type has an entry, what it contains is declared by a walk. -/
theorem declareContents_ends {nested : String → TypeDecl → Edit State ResolveError TypeDecl}
    {R : TypeDecl → TypeDecl → Prop} {E : ResolveError → Prop} {owner : TypeId}
    {descriptor : TypeDescriptor} {d : TypeDecl}
    (types : ∀ name, ∀ x ∈ d.inner, (nested name x).Ends (fun s => s.table.Rooted low) (R x) E)
    (found : s.table.typeAt owner = .ok descriptor) :
    ∃ walk : Edit State ResolveError TypeDecl, declareContents nested owner d s = walk s ∧
      walk.Ends (fun s => s.table.Rooted low)
        (fun d' => List.Forall₂ R d.inner d'.inner ∧ d'.head = d.head) E := by
  unfold declareContents
  rw [found]
  refine ⟨_, rfl, TypeDecl.walk_ends (fun m hm => ?_) fun x hx => ?_⟩
  · refine declareMember_ends fun x hx => types _ x (TypeDecl.mem_inner.mpr ⟨m, hm, ?_⟩)
    exact List.mem_append_left _ (Option.mem_toList.mpr hx)
  · exact types _ x (List.mem_append_right _ hx)

theorem Declared.of_inner {levels : Nat} {d d' : TypeDecl}
    (related : List.Forall₂ (Declared levels) d.inner d'.inner)
    (clause : ∀ c, d'.head.superclass = some c → c.binding = none) :
    Declared (levels + 1) d d' := by
  refine ⟨fun x hx => ?_, fun x' hx' => ?_, fun x' hx' c written => ?_⟩
  · obtain ⟨x', -, one⟩ := exists_mem_right related hx
    exact one.before
  · obtain ⟨x, -, one⟩ := exists_mem_left related hx'
    exact one.after
  · rw [TypeDecl.declarations_eq] at hx'
    rcases List.mem_cons.mp hx' with rfl | hx'
    · exact clause c written
    · obtain ⟨y', hy', hx'⟩ := List.mem_flatMap.mp hx'
      obtain ⟨y, -, one⟩ := exists_mem_left related hy'
      exact one.clauses x' hx' c written

/-- A type without handles is declared unless something in it lies too deep. -/
theorem declareType_ends (levels : Nat) {qualifier : Option String} {outer : Option TypeId}
    {d : TypeDecl} (unbound : ∀ x ∈ d.declarations, x.head.Unbound) :
    (declareType levels qualifier outer d).Ends (fun s => s.table.Rooted low) (Declared levels d)
      fun e => ∃ x, TypeDecl.LiesAt x levels d ∧ e = .nestingTooDeep x.name := by
  induction levels generalizing qualifier outer d with
  | zero => exact Edit.Ends.stop ⟨d, .self d, rfl⟩
  | succ levels ih =>
    intro s rooted
    have head := unbound d d.mem_declarations_self
    obtain ⟨owner, descriptor, s₁, run, found, rooted₁⟩ :=
      declareHead_unbound qualifier outer head.binding rooted
    -- The types inside have one level less, and what lies too deep in them lies too deep here.
    have inside : ∀ name, ∀ x ∈ d.inner,
        (declareType levels (some name) (some owner) x).Ends (fun s => s.table.Rooted low)
          (Declared levels x)
          fun e => ∃ y, TypeDecl.LiesAt y (levels + 1) d ∧ e = .nestingTooDeep y.name := by
      intro name x hx
      have listed : ∀ y ∈ x.declarations, y.head.Unbound := by
        intro y hy
        refine unbound y ?_
        rw [TypeDecl.declarations_eq]
        exact List.mem_cons_of_mem _ (List.mem_flatMap.mpr ⟨x, hx, hy⟩)
      exact (ih listed).imp (fun _ => id) fun e ⟨y, lies, failed⟩ => ⟨y, .inside hx lies, failed⟩
    -- The type with its handle still has the members of the type.
    obtain ⟨walk, walks, ended⟩ := declareContents_ends
      (d := { d with head := { d.head with binding := some owner } }) inside found
    unfold declareType Edit.andThen
    rw [run]
    dsimp only
    rw [walks]
    refine ended.imp (fun d' ⟨related, same⟩ => ?_) (fun _ => id) s₁ rooted₁
    refine Declared.of_inner related fun c written => head.clause c ?_
    rw [same] at written
    exact written

/-- What a unit without handles declares is declared unless something in it lies too deep. -/
theorem declareTypes_ends (low : Nat) {u : CompilationUnit} (unbound : u.Unbound) :
    (Edit.list (declareTopLevel u.package) u.types).Ends (fun s => s.table.Rooted low)
      (fun ds => List.Forall₂ (Declared (Limits.typeNesting + 1)) u.types ds)
      u.TooDeep := by
  refine Edit.Ends.list fun d hd => ?_
  have heads : ∀ x ∈ d.declarations, x.head.Unbound := fun x hx =>
    unbound.heads _ (List.mem_map_of_mem (List.mem_flatMap.mpr ⟨d, hd, hx⟩))
  refine (declareType_ends _ heads).imp (fun _ => id) fun e ⟨x, lies, failed⟩ => ?_
  exact ⟨x, ⟨d, hd, lies⟩, failed⟩

/-! ## Resolving -/

theorem resolveSuperclass_rooted (name : String) (rooted : s.table.Rooted low) :
    (Binding.resolveSuperclass name s).2.table.Rooted low ∧
      (Binding.resolveSuperclass name s).1.index <
        (Binding.resolveSuperclass name s).2.table.types.size := by
  rcases resolveSuperclass_finds name s with ⟨id, known, found⟩ | interned
  · rw [found]
    exact ⟨rooted, known⟩
  · rw [interned]
    exact rooted.internClass name

/-- The head of a type that has an entry resolves, if its superclass clause carries no handle. -/
theorem resolvable_of_rooted {t : BindingTable} {h : TypeHead} {id : TypeId}
    (bound : h.binding = some id) (known : id.index < t.types.size)
    (clause : ∀ c, h.superclass = some c → c.binding = none) :
    h.Resolvable (fun t' => t.Extends t' ∧ t'.Rooted low) False := by
  constructor
  · intro unbound
    rw [bound] at unbound
    cases unbound
  · intro id' bound'
    rw [bound] at bound'
    cases bound'
    refine TypeHead.resolveSuperclass_yields fun c written s ⟨grown, rooted⟩ => ?_
    rw [superclassOf, clause c written]
    obtain ⟨rooted', inRange⟩ := resolveSuperclass_rooted c.name rooted
    have grown' := grown.trans (resolveSuperclass_extends c.name s)
    -- The type has kept its entry, so that its superclass can be recorded.
    have recorded : ∃ t', (Binding.resolveSuperclass c.name s).2.table.setSuperclass id
        (Binding.resolveSuperclass c.name s).1 = .ok t' := by
      unfold BindingTable.setSuperclass
      rw [if_pos (Nat.lt_of_lt_of_le known grown'.moreTypes)]
      exact ⟨_, rfl⟩
    obtain ⟨t', set⟩ := recorded
    rw [Records, set]
    exact ⟨grown'.trans (.setSuperclass set), rooted'.setSuperclass inRange set⟩

theorem admitsLocals_of_rooted (t : BindingTable) :
    AdmitsLocals fun t' => t.Extends t' ∧ t'.Rooted low :=
  fun _ _ _ _ ⟨grown, rooted⟩ => ⟨grown.trans (.addVariable _ rfl), rooted.of_types rfl⟩

end Binding

/-! ## What lowering needs -/

/-- The table has what lowering asks it about the type: an entry of its kind, with a superclass if
the type has instances, and entries for its fields. -/
structure TypeDecl.Ready (t : BindingTable) (d : TypeDecl) : Prop where
  entry : ∃ id descriptor, d.head.binding = some id ∧ t.typeAt id = .ok descriptor ∧
    descriptor.kind = d.head.kind ∧
    (descriptor.isInterface = false → ∃ p, descriptor.superclass = some p ∧ p.index < t.types.size)
  fields : ∀ s ∈ d.slots, ∃ v, s.fragment.binding = some v ∧ v.index < t.vars.size

/-- No type of the unit lies too deep, and the table has what lowering asks it about all of them. -/
structure CompilationUnit.Ready (t : BindingTable) (u : CompilationUnit) : Prop where
  fits : ∀ d ∈ u.types, d.Fits (Limits.typeNesting + 1)
  types : ∀ d ∈ u.declarations, d.Ready t

/-! ## Binding a unit -/

namespace CompilationUnit

variable {u : CompilationUnit} {t : BindingTable} {low : Nat}

/-- A type that is declared anew gets a handle for which the table has an entry. -/
theorem handle_of_allocated {hs hs' : List TypeHead} {high : Nat}
    (allocated : Allocated TypeHead.key hs hs' low high) (unbound : ∀ h ∈ hs, h.binding = none)
    {h : TypeHead} (hh : h ∈ hs') :
    ∃ id, h.binding = some id ∧ low ≤ id.index ∧ id.index < high := by
  obtain ⟨n, key, origin⟩ := allocated.origin h hh
  obtain ⟨id, bound, rfl⟩ := Option.map_eq_some_iff.mp key
  rcases origin with old | range
  · rw [unbound h old] at bound
    cases bound
  · exact ⟨id, bound, range⟩

/-- Binding a unit without handles succeeds unless something in it lies too deep, and then fails for
this reason. -/
theorem bind_ends (unbound : u.Unbound) (rooted : t.Rooted low) :
    (∃ stats, (u.bind t).result = .ok stats ∧ (∀ d ∈ u.types, d.Fits (Limits.typeNesting + 1)) ∧
      (∀ d ∈ (u.bind t).unit.types, d.Fits (Limits.typeNesting + 1)) ∧
      (u.bind t).table.Rooted low) ∨
    ∃ e, (u.bind t).result = .error e ∧ u.TooDeep e := by
  have declares := Binding.declareTypes_ends low unbound
  unfold bind
  rcases declaring : Edit.list (Binding.declareTopLevel u.package) u.types (.start t) with
    ⟨⟨types⟩ | ⟨types, e⟩, s⟩
  · left
    obtain ⟨declared, rooted'⟩ := declares.of_done rooted declaring
    have allocated := (declareTypes_done declaring).types
    -- Every type has its entry by now, so resolving superclasses has nothing to stop at.
    have heads : ∀ x ∈ types.flatMap TypeDecl.declarations,
        x.head.Resolvable (fun t' => s.table.Extends t' ∧ t'.Rooted low) False := by
      intro x hx
      obtain ⟨id, bound, -, known⟩ := handle_of_allocated allocated
        (fun h hh => (unbound.heads h hh).binding) (List.mem_map_of_mem hx)
      obtain ⟨d', hd', hx⟩ := List.mem_flatMap.mp hx
      obtain ⟨d, -, one⟩ := exists_mem_left declared hd'
      exact Binding.resolvable_of_rooted bound known (one.clauses x hx)
    obtain ⟨types', s', resolving, resolved, -, rooted''⟩ :=
      (resolveTypes_yields (Binding.admitsLocals_of_rooted s.table) types heads).succeeds
        ⟨.refl s.table, rooted'⟩
    simp only
    rw [resolving]
    refine ⟨s'.stats, rfl, fun d hd => ?_, fun d' hd' => ?_, rooted''⟩
    · obtain ⟨d', -, one⟩ := exists_mem_right declared hd
      exact one.before
    · have listed : d' ∈ types'.flatMap TypeDecl.declarations :=
        List.mem_flatMap.mpr ⟨d', hd', d'.mem_declarations_self⟩
      obtain ⟨x, hx, same⟩ := exists_mem_left resolved listed
      obtain ⟨d₁, hd₁, hx⟩ := List.mem_flatMap.mp hx
      obtain ⟨d, -, one⟩ := exists_mem_left declared hd₁
      exact same.fits _ (one.after.of_mem_declarations hx)
  · exact .inr ⟨e, rfl, declares.of_stopped rooted declaring⟩

/-- A unit without handles is bound exactly if nothing in it lies too deep. -/
theorem bind_succeeds_iff (unbound : u.Unbound) (rooted : t.Rooted low) :
    (∃ stats, (u.bind t).result = .ok stats) ↔
      ∀ (x : TypeDecl) n, x.LiesAtLevel n u → n ≤ Limits.typeNesting := by
  constructor
  · rintro ⟨stats, success⟩ x n ⟨d, hd, lies⟩
    rcases bind_ends unbound rooted with ⟨-, -, fits, -⟩ | ⟨e, failed, -⟩
    · exact Nat.le_of_lt_succ (TypeDecl.fits_iff.mp (fits d hd) x n lies)
    · rw [success] at failed
      cases failed
  · intro shallow
    rcases bind_ends unbound rooted with ⟨stats, success, -⟩ | ⟨e, -, x, lies, -⟩
    · exact ⟨stats, success⟩
    · exact absurd (shallow x _ lies) (Nat.not_succ_le_self _)

/-- A unit without handles that is not bound fails for a type that lies too deep. -/
theorem tooDeep_of_bind (unbound : u.Unbound) (rooted : t.Rooted low) {e : ResolveError}
    (failed : (u.bind t).result = .error e) : u.TooDeep e := by
  rcases bind_ends unbound rooted with ⟨stats, success, -⟩ | ⟨e', failed', tooDeep⟩
  · rw [failed] at success
    cases success
  · rw [failed] at failed'
    cases failed'
    exact tooDeep

/-- What binding a unit without handles leaves is ready to be lowered. -/
theorem bind_ready {stats : Binding.Stats} (unbound : u.Unbound) (rooted : t.Rooted t.types.size)
    (success : (u.bind t).result = .ok stats) : (u.bind t).unit.Ready (u.bind t).table := by
  have fit := bind_fits (.of_unbound t (fun h hh => (unbound.heads h hh).binding) unbound.fields)
    success
  obtain ⟨t₁, ds, declared, -, resolved⟩ := bind_done success
  rcases bind_ends unbound rooted with ⟨-, -, -, fits, rooted'⟩ | ⟨e, failed, -⟩
  · refine ⟨fits, fun d' hd' => ⟨?_, fun s' hs' => ?_⟩⟩
    · have listed : d'.head ∈ (u.bind t).unit.heads := List.mem_map_of_mem hd'
      obtain ⟨d, hd, one⟩ := exists_mem_left resolved hd'
      obtain ⟨id, bound, above, -⟩ := handle_of_allocated declared.types
        (fun h hh => (unbound.heads h hh).binding) (List.mem_map_of_mem hd)
      rw [← one.binding] at bound
      obtain ⟨descriptor, found, kind⟩ := fit.kinds _ listed id bound
      exact ⟨id, descriptor, bound, found, kind, rooted'.parents id descriptor above found⟩
    · have listed : s' ∈ (u.bind t).unit.allSlots := List.mem_flatMap.mpr ⟨d', hd', hs'⟩
      obtain ⟨s, hs, one⟩ := exists_mem_left (slots_resolved resolved) listed
      obtain ⟨n, key, -⟩ := declared.fields.origin s hs
      obtain ⟨v, bound, -⟩ := Option.map_eq_some_iff.mp key
      rw [← one.binding] at bound
      exact ⟨v, bound, fit.entries s' listed v bound⟩
  · rw [success] at failed
    cases failed

end CompilationUnit

/-! ## Recording constants -/

namespace Constants

variable {t : BindingTable} {n : Nat}

/-- A round over candidates that the table knows cannot fail. -/
theorem round_keeps {pending : List Candidate} (known : ∀ c ∈ pending, c.id.index < n) :
    Step.Keeps (fun t : BindingTable => t.vars.size = n) (round pending)
      (fun left => ∀ c ∈ left, c ∈ pending) fun _ => False := by
  induction pending with
  | nil => exact .pure fun _ hc => hc
  | cons c cs ih =>
    have rest := ih fun c' hc' => known c' (List.mem_cons_of_mem _ hc')
    rw [round]
    refine .bind (Q := fun _ => True) (.get fun _ _ => trivial) fun t₁ _ => ?_
    split
    · refine .bind rest fun left subset => .pure fun c' hc' => ?_
      rcases List.mem_cons.mp hc' with rfl | hc'
      · exact List.mem_cons_self
      · exact List.mem_cons_of_mem _ (subset c' hc')
    · rename_i value _
      refine .bind (Q := fun t₂ => t₂.vars.size = n) (.get fun _ size => size) fun t₂ size => ?_
      -- No round removes a variable, so that the candidate is still there when its value is
      -- recorded.
      cases set : t₂.setConstant c.id value with
      | error e =>
        unfold BindingTable.setConstant at set
        rw [size, if_pos (known c List.mem_cons_self)] at set
        cases set
      | ok t₃ =>
        have size₃ : t₃.vars.size = n := (BindingTable.setConstant_spec set).2.1.trans size
        refine .bind (.set size₃) fun _ _ => ?_
        exact rest.imp fun left subset c' hc' => List.mem_cons_of_mem _ (subset c' hc')

theorem rounds_keeps (budget : Nat) {pending : List Candidate}
    (known : ∀ c ∈ pending, c.id.index < n) :
    Step.Keeps (fun t : BindingTable => t.vars.size = n) (rounds budget pending)
      (fun _ => True) fun _ => False := by
  induction budget generalizing pending with
  | zero => exact .pure trivial
  | succ budget ih =>
    rw [rounds]
    refine .bind (round_keeps known) fun pending' subset => ?_
    split
    · exact .pure trivial
    · exact ih fun c hc => known c (subset c hc)

/-- Recording the constants of a unit whose fields the table knows is a run of rounds. -/
theorem bindConstants_run {u : CompilationUnit}
    (known : ∀ s ∈ u.allSlots, ∀ v, s.fragment.binding = some v → v.index < t.vars.size) :
    ∃ left t', (rounds Limits.constantRounds (u.candidates t)).run t = (.ok left, t') ∧
      t.bindConstants u = (.ok ((u.candidates t).length - left.length), t') := by
  have inRange : ∀ c ∈ u.candidates t, c.id.index < t.vars.size := by
    intro c hc
    obtain ⟨-, s, hs, bound⟩ := mem_candidates hc
    exact known s hs c.id bound
  obtain ⟨left, t', run, -⟩ := (rounds_keeps Limits.constantRounds inRange).succeeds rfl
  have listed : ofUnit t u = .ok (u.candidates t) := (ofUnit_eq t u).trans (ofSlots_eq_ok known)
  refine ⟨left, t', run, ?_⟩
  unfold BindingTable.bindConstants
  rw [listed]
  dsimp only
  rw [run]
  rfl

end Constants

/-- Recording the constants of a unit succeeds if the table knows its fields, and nothing of what
lowering needs gets lost. -/
theorem CompilationUnit.bindConstants_ready {u : CompilationUnit} {t : BindingTable}
    (distinct : (u.allSlots.filterMap FieldSlot.key).Nodup) (ready : u.Ready t) :
    (∃ n, (t.bindConstants u).1 = .ok n) ∧ u.Ready (t.bindConstants u).2 := by
  have known : ∀ s ∈ u.allSlots, ∀ v, s.fragment.binding = some v → v.index < t.vars.size := by
    intro s hs v bound
    obtain ⟨d, hd, hs⟩ := List.mem_flatMap.mp hs
    obtain ⟨v', bound', inRange⟩ := (ready.types d hd).fields s hs
    rw [bound] at bound'
    cases bound'
    exact inRange
  have success : ∃ n, (t.bindConstants u).1 = .ok n := by
    obtain ⟨left, t', -, result⟩ := Constants.bindConstants_run known
    rw [result]
    exact ⟨_, rfl⟩
  refine ⟨success, ready.fits, fun d hd => ?_⟩
  obtain ⟨n, success⟩ := success
  obtain ⟨_, -, -, finds⟩ := bindConstants_ok distinct success
  obtain ⟨⟨id, descriptor, bound, found, kind, parent⟩, fields⟩ := ready.types d hd
  refine ⟨⟨id, descriptor, bound, ?_, kind, ?_⟩, ?_⟩
  · rw [BindingTable.typeAt_eq_ok] at found ⊢
    rw [finds.types]
    exact found
  · rw [finds.types]
    exact parent
  · rw [finds.size]
    exact fields

/-- The constants of a unit that had no handles before it was bound are recorded, and the unit is
ready to be lowered. -/
theorem CompilationUnit.knownTable_ready {u : CompilationUnit} {t : BindingTable}
    {stats : Binding.Stats} (unbound : u.Unbound) (rooted : t.Rooted t.types.size)
    (success : (u.bind t).result = .ok stats) :
    (∃ n, ((u.bind t).table.bindConstants (u.bind t).unit).1 = .ok n) ∧
      (u.bind t).unit.Ready (u.knownTable t) := by
  have fit := bind_fits (.of_unbound t (fun h hh => (unbound.heads h hh).binding) unbound.fields)
    success
  exact bindConstants_ready fit.distinctFields (bind_ready unbound rooted success)

end ClassInit
