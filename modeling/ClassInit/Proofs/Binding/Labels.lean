import ClassInit.Proofs.Binding.Entering
import ClassInit.Proofs.Binding.NamedTypes

/-!
# Labelled units

What binding leaves is labelled: every declaration and every superclass clause has a handle, and the
table has recorded the clauses (`CompilationUnit.bind_labelled`). Binding a labelled unit declares
nothing (`CompilationUnit.Labelled.declaresNothing`), so that binding a unit again changes nothing
(`CompilationUnit.bind_again`).
-/

set_option autoImplicit false

namespace ClassInit

open Binding

/-! ## Labels -/

/-- Every field, method and local of the piece, outside the types inside it, has a handle. -/
structure Contents.Labelled (c : Contents) : Prop where
  fields : ∀ f ∈ c.fields, ∃ v, f.binding = some v
  methods : ∀ m ∈ c.methods, ∃ id, m.binding = some id
  locals : ∀ l ∈ c.locals, ∃ v, l.binding = some v

/-- Everything that the type declares itself has a handle, and so have the type, for which the table
has an entry, and its superclass clause. -/
structure TypeDecl.Labelled (t : BindingTable) (d : TypeDecl) : Prop where
  known : ∃ id, d.head.binding = some id ∧ id.index < t.types.size
  clause : ∀ c, d.head.superclass = some c → ∃ p, c.binding = some p
  contents : d.contents.Labelled

/-- Everything that the unit declares has a handle, and no type lies too deep. -/
structure CompilationUnit.Labelled (t : BindingTable) (u : CompilationUnit) : Prop where
  fits : ∀ d ∈ u.types, d.Fits (Limits.typeNesting + 1)
  types : ∀ d ∈ u.preorder, d.Labelled t

/-- Binding the unit succeeds, declares nothing and keeps every handle. -/
structure CompilationUnit.DeclaresNothing (t : BindingTable) (u : CompilationUnit) : Prop where
  counts : ∃ names, (u.bind t).result = .ok ⟨0, 0, 0, 0, names⟩
  handles : List.Forall₂ (fun d d' => List.Forall₂ Handle.Keeps d.handles d'.handles) u.preorder
    (u.bind t).unit.preorder

/-- The tables differ in nothing but the superclasses of the types as described. -/
structure BindingTable.SameBut (P : TypeId → Prop) (t t' : BindingTable) : Prop where
  fields : t'.vars = t.vars
  methods : t'.methods = t.methods
  size : t'.types.size = t.types.size
  entries : ∀ id d, t.typeAt id = .ok d → ∃ superclass, t'.typeAt id = .ok { d with superclass } ∧
    (¬ P id → superclass = d.superclass)

/-! ## What binding leaves is labelled -/

namespace Binding

/-- What is declared takes no more levels than there were. -/
theorem declareType_fits {levels : Nat} {qualifier : Option String} {outer : Option TypeId}
    {d d' : TypeDecl} {s s' : State}
    (run : declareType levels qualifier outer d s = (.done d', s')) : d'.Fits levels := by
  induction levels generalizing qualifier outer d d' s s' with
  | zero => exact absurd run Edit.stop_ne_done
  | succ levels ih =>
    obtain ⟨⟨d₁, id⟩, s₁, -, hcontents⟩ := Edit.andThen_eq_done.mp run
    obtain ⟨descriptor, -, -, -, inner⟩ :=
      declareContents_steps (fun _ _ _ _ _ run => declareType_enters run) hcontents
    intro x' hx'
    obtain ⟨x, -, s₂, s₃, run, -⟩ := inner x' hx'
    exact ih run

end Binding

/-- Declaring what a unit declares, in the order in which it is written. -/
theorem CompilationUnit.declareTypes_enters {u : CompilationUnit} {t : BindingTable}
    {ds : List TypeDecl} {s : Binding.State}
    (run : Edit.list (declareTopLevel u.package) u.types (.start t) = (.done ds, s)) :
    Enters (.start t) s (.ofTypes u.preorder) (.ofTypes (ds.flatMap TypeDecl.preorder)) ∧
      List.Forall₂ TypeDecl.FillsTo u.preorder (ds.flatMap TypeDecl.preorder) := by
  have enters := Enters.list (fun d => Listing.ofTypes d.preorder)
    (fun _ _ _ _ run => declareType_enters run) run
  rw [← Listing.ofTypes_flatMap, ← Listing.ofTypes_flatMap] at enters
  refine ⟨enters, List.rel_flatMap (Edit.forall₂_of_done (fun _ _ _ _ run => ?_) run)
    fun _ _ one => one⟩
  exact declareType_fills run

namespace CompilationUnit

variable {u : CompilationUnit} {t : BindingTable} {stats : Binding.Stats}

theorem bind_eq {ds types : List TypeDecl} {s s' : Binding.State}
    (declaring : Edit.list (declareTopLevel u.package) u.types (.start t) = (.done ds, s))
    (resolving : (ds.mapM TypeDecl.resolve).run s = (.ok types, s')) :
    u.bind t = ⟨{ u with types }, s'.table, .ok s'.stats⟩ := by
  unfold bind
  rw [declaring]
  dsimp only
  rw [resolving]

/-- Binding a unit declares what it declares and then resolves it. -/
theorem bind_steps (success : (u.bind t).result = .ok stats) :
    ∃ (ds : List TypeDecl) (s s' : Binding.State),
      Edit.list (declareTopLevel u.package) u.types (.start t) = (.done ds, s) ∧
      (ds.mapM TypeDecl.resolve).run s = (.ok (u.bind t).unit.types, s') ∧
      (u.bind t).table = s'.table ∧ stats = s'.stats := by
  obtain ⟨ds, s, s', declaring, resolving, table⟩ := bind_runs success
  refine ⟨ds, s, s', declaring, resolving, table, ?_⟩
  rw [bind_eq declaring resolving] at success
  cases success
  rfl

/-- Every declaration of a bound unit has a handle, and every superclass clause too; the last clause
for each type is recorded. -/
theorem bind_labelled (success : (u.bind t).result = .ok stats) :
    (u.bind t).unit.Labelled (u.bind t).table ∧
      ∀ id p, lastClause ((u.bind t).unit.preorder.map (·.head)) id = some p →
        (u.bind t).table.superclass? id = some p := by
  obtain ⟨ds, s, s', declaring, resolving, table⟩ := bind_runs success
  obtain ⟨enters, -⟩ := declareTypes_enters declaring
  obtain ⟨-, filled, steps⟩ := resolveTypes_filled resolving
  rw [table]
  refine ⟨⟨fun d' hd' => ?_, fun d' hd' => ?_⟩, steps.clauses.written⟩
  · -- Declaring stops at types that lie too deep, and resolving makes no type deeper.
    obtain ⟨resolved, -⟩ := (resolveTypes_yields (admitsLocals_of_extends s.table) ds
      fun x _ => x.head.resolvable_of_extends s.table).of_ok (.refl s.table) resolving
    have listed : d' ∈ (u.bind t).unit.types.flatMap TypeDecl.declarations :=
      List.mem_flatMap.mpr ⟨d', hd', d'.mem_declarations_self⟩
    obtain ⟨x, hx, same⟩ := exists_mem_left resolved listed
    obtain ⟨d, hd, hx⟩ := List.mem_flatMap.mp hx
    have fits := Edit.forall₂_of_done (R := fun _ d => d.Fits (Limits.typeNesting + 1))
      (fun _ _ _ _ run => declareType_fits run) declaring
    obtain ⟨_, -, one⟩ := exists_mem_left fits hd
    exact same.fits _ (one.of_mem_declarations hx)
  · obtain ⟨d, hd, one⟩ := exists_mem_left filled hd'
    obtain ⟨id, bound, known⟩ := enters.known d.head (List.mem_map_of_mem hd)
    refine ⟨⟨id, one.head.kept id bound, Nat.lt_of_lt_of_le known steps.table.grown.moreTypes⟩,
      steps.bound d'.head (List.mem_map_of_mem hd'), fun f' hf' => ?_, fun m' hm' =>
        ?_, fun l hl => ?_⟩
    · obtain ⟨f, hf, same⟩ := exists_mem_left one.contents.fields hf'
      obtain ⟨n, key, -⟩ := enters.fields.origin f (List.mem_flatMap.mpr ⟨d, hd, hf⟩)
      obtain ⟨v, bound, -⟩ := Option.map_eq_some_iff.mp key
      exact ⟨v, same.kept v bound⟩
    · obtain ⟨m, hm, same⟩ := exists_mem_left one.contents.methods hm'
      obtain ⟨n, key, -⟩ := enters.methods.origin m (List.mem_flatMap.mpr ⟨d, hd, hm⟩)
      obtain ⟨id, bound, -⟩ := Option.map_eq_some_iff.mp key
      exact ⟨id, same.kept id bound⟩
    · obtain ⟨n, key, -⟩ := steps.locals.origin l (List.mem_flatMap.mpr ⟨d', hd', hl⟩)
      obtain ⟨v, bound, -⟩ := Option.map_eq_some_iff.mp key
      exact ⟨v, bound⟩

end CompilationUnit

/-! ## Declaring what is labelled -/

namespace Binding

variable {s : State}

theorem declareField_labelled (owner : TypeId) (isInterfaceLike : Bool) {f : FieldDecl}
    (bound : ∀ l ∈ f.contents.fields, ∃ v, l.binding = some v) :
    declareField owner isInterfaceLike f s = (f, s) := by
  have fragments : ∀ (modifiers : Modifiers) (fs : List Fragment),
      (∀ l ∈ fs.map (Fragment.slot f.type f.modifiers), ∃ v, l.binding = some v) →
        fs.mapM (declareFragment owner modifiers f.type) s = (fs, s) := by
    intro modifiers fs bound
    induction fs with
    | nil => rfl
    | cons g gs ih =>
      obtain ⟨v, handle⟩ := bound _ List.mem_cons_self
      obtain ⟨span, name, initializer, binding⟩ := g
      cases handle
      rw [mapM_cons_state]
      show (_ :: (gs.mapM (declareFragment owner modifiers f.type) s).1,
        (gs.mapM (declareFragment owner modifiers f.type) s).2) = _
      rw [ih fun l hl => bound l (List.mem_cons_of_mem _ hl)]
      rfl
  unfold declareField
  have kept :=
    fragments (if isInterfaceLike then f.modifiers.union .interfaceField else f.modifiers)
    f.fragments bound
  show ({ f with fragments := (f.fragments.mapM (declareFragment owner _ f.type) s).1 },
    (f.fragments.mapM (declareFragment owner _ f.type) s).2) = _
  rw [kept]

/-- A member in which everything is labelled is left as it is. -/
theorem declareMember_labelled {nested : TypeDecl → Edit State ResolveError TypeDecl}
    {owner : TypeId} {isInterfaceLike : Bool} {m : Member}
    (types : ∀ x ∈ m.asType, (nested x).Returns (· = s) x)
    (fields : ∀ l ∈ m.contents.fields, ∃ v, l.binding = some v)
    (methods : ∀ h ∈ m.contents.methods, ∃ id, h.binding = some id) :
    (declareMember nested owner isInterfaceLike m).Returns (· = s) m := by
  cases m with
  | type d =>
    rw [declareMember]
    exact (types d rfl).map _
  | field f =>
    rw [declareMember]
    refine Edit.Returns.map ?_ _
    rintro _ rfl
    exact ⟨_, Edit.ofState_eq_done.mpr (declareField_labelled owner isInterfaceLike fields), rfl⟩
  | method m =>
    obtain ⟨h, body⟩ := m
    rw [declareMember]
    refine Edit.Returns.map ?_ fun h => Member.method ⟨h, body⟩
    rintro _ rfl
    have listed : h ∈ (Member.method ⟨h, body⟩).contents.methods := by
      show h ∈ (Listing.ofContents (Member.method ⟨h, body⟩).contents).methods
      rw [Member.ofContents_method]
      exact List.mem_singleton.mpr rfl
    obtain ⟨id, handle⟩ := methods h listed
    refine ⟨_, Edit.ofState_eq_done.mpr ?_, rfl⟩
    unfold declareMethod
    rw [handle]
    rfl
  | initializer i => exact Edit.Returns.keep _

/-- A type in which everything is labelled is left as it is. -/
theorem declareType_labelled (levels : Nat) {qualifier : Option String} {outer : Option TypeId}
    {d : TypeDecl} (fits : d.Fits levels) (labelled : ∀ x ∈ d.preorder, x.Labelled s.table) :
    (declareType levels qualifier outer d).Returns (· = s) d := by
  induction levels generalizing qualifier outer d with
  | zero => exact fits.elim
  | succ levels ih =>
    have own := labelled d d.mem_preorder_self
    have inside : ∀ name id, ∀ x ∈ d.inner,
        (declareType levels (some name) (some id) x).Returns (· = s) x := by
      intro name id x hx
      exact ih (fits x hx) fun y hy => labelled y (TypeDecl.preorder_subset_of_inner hx hy)
    obtain ⟨id, handle, known⟩ := own.known
    have found : s.table.typeAt id = .ok s.table.types[id.index] :=
      BindingTable.typeAt_eq_ok.mpr (Array.getElem?_eq_getElem known)
    have head : declareHead qualifier outer d s = (.done (d, id), s) := by
      unfold declareHead
      rw [handle]
      dsimp only
      rw [found]
    have members : ∀ name, (Edit.list (declareMember (declareType levels (some name) (some id)) id
        d.isInterfaceLike) d.members).Returns (· = s) d.members := by
      refine fun name => Edit.Returns.list fun m hm => declareMember_labelled (fun x hx => ?_)
        (fun l hl => own.contents.fields l ?_) fun h hh => own.contents.methods h ?_
      · exact inside name id x (TypeDecl.mem_inner.mpr
          ⟨m, hm, List.mem_append_left _ (Option.mem_toList.mpr hx)⟩)
      · exact TypeDecl.mem_contents_fields.mpr ⟨m, hm, hl⟩
      · exact TypeDecl.mem_contents_methods.mpr ⟨m, hm, hh⟩
    -- Members and bodies are both walked without a change.
    have walk : ∀ name, (((Edit.list (declareMember (declareType levels (some name) (some id)) id
        d.isInterfaceLike) d.members).map fun ms => { d with members := ms }).seq
          (TypeDecl.editLocalTypes (declareType levels (some name) (some id)))).Returns (· = s)
            d := by
      intro name
      have same : TypeDecl.mk d.head d.members = d := by cases d; rfl
      have first := (members name).map fun ms => { d with members := ms }
      rw [same] at first
      exact first.seq (d.editLocalTypes_returns fun x hx =>
        inside name id x (List.mem_append_right _ hx))
    rintro _ rfl
    obtain ⟨s', run, rfl⟩ := walk _ _ rfl
    refine ⟨_, ?_, rfl⟩
    unfold declareType Edit.andThen
    rw [head]
    dsimp only
    unfold declareContents
    rw [found]
    exact run

end Binding

/-! ## Resolving what is labelled -/

/-- The head of a labelled type is resolved without failing. -/
theorem TypeDecl.Labelled.resolvable {t : BindingTable} {d : TypeDecl} (labelled : d.Labelled t) :
    d.head.Resolvable t.Extends False := by
  obtain ⟨id, handle, known⟩ := labelled.known
  constructor
  · intro unbound
    rw [handle] at unbound
    cases unbound
  · intro id' handle'
    rw [handle] at handle'
    cases handle'
    refine TypeHead.resolveSuperclass_yields fun c written s grown => ?_
    obtain ⟨p, bound⟩ := labelled.clause c written
    rw [superclassOf, bound]
    show Records t.Extends False id p s.table
    unfold Records
    split
    · rename_i set
      exact grown.trans (.setSuperclass set)
    · rename_i failed
      unfold BindingTable.setSuperclass at failed
      rw [if_pos (Nat.lt_of_lt_of_le known grown.moreTypes)] at failed
      cases failed

/-- A filled head has the clause that it had. -/
theorem TypeHead.FillsTo.clause? {h h' : TypeHead} (filled : h.FillsTo h')
    (known : ∃ id, h.binding = some id)
    (bound : ∀ c, h.superclass = some c → ∃ p, c.binding = some p) :
    h'.clause? = h.clause? := by
  obtain ⟨id, handle⟩ := known
  have handles := filled.handles
  unfold TypeHead.handles at handles
  -- The handles of a head are its own and, if it has a superclass clause, that of the clause.
  have rest := (List.forall₂_cons.mp handles).2
  have same : h'.superclass.bind (·.binding) = h.superclass.bind (·.binding) := by
    cases written : h.superclass with
    | none =>
      rw [written] at rest
      cases written' : h'.superclass with
      | none => rfl
      | some c' =>
        rw [written'] at rest
        cases rest
    | some c =>
      obtain ⟨p, handle⟩ := bound c written
      rw [written] at rest
      cases written' : h'.superclass with
      | none =>
        rw [written'] at rest
        cases rest
      | some c' =>
        rw [written'] at rest
        have one := (List.forall₂_cons.mp rest).1
        obtain ⟨name, binding⟩ := c
        obtain ⟨name', binding'⟩ := c'
        cases handle
        cases one
        rfl
  rw [TypeHead.clause?, TypeHead.clause?, handle, filled.kept id handle, same]

theorem lastClause_of_fills {t : BindingTable} {ds ds' : List TypeDecl}
    (filled : List.Forall₂ TypeDecl.FillsTo ds ds') (labelled : ∀ d ∈ ds, d.Labelled t) :
    lastClause (ds'.map (·.head)) = lastClause (ds.map (·.head)) := by
  have clauses : (ds'.map (·.head)).filterMap TypeHead.clause? =
      (ds.map (·.head)).filterMap TypeHead.clause? := by
    induction filled with
    | nil => rfl
    | @cons d d' ds ds' one _ ih =>
      have own := labelled d List.mem_cons_self
      have known : ∃ id, d.head.binding = some id := own.known.imp fun _ h => h.1
      rw [List.map_cons, List.map_cons, List.filterMap_cons, List.filterMap_cons,
        ih fun x hx => labelled x (List.mem_cons_of_mem _ hx), one.head.clause? known own.clause]
  funext id
  rw [lastClause, lastClause, clauses]

namespace BindingTable

/-- Resolving that adds neither entries nor other superclasses than those described. -/
theorem ResolvesTo.sameBut {P : TypeId → Prop} {t t' : BindingTable} (resolves : t.ResolvesTo t')
    (size : t'.vars.size = t.vars.size) (methods : t'.methods = t.methods)
    (types : t'.types.size = t.types.size)
    (superclasses : ∀ id, ¬ P id → t'.superclass? id = t.superclass? id) : t.SameBut P t' := by
  refine ⟨?_, methods, types, fun id d found => ?_⟩
  · obtain ⟨added, all, -⟩ := resolves.adds
    have lengths := congrArg List.length all
    rw [List.length_append, Array.length_toList, Array.length_toList, size] at lengths
    have none : added = [] := List.eq_nil_of_length_eq_zero (by omega)
    rw [none, List.append_nil] at all
    exact Array.toList_inj.mp all
  · obtain ⟨superclass, found'⟩ := resolves.grown.oldTypes id d found
    refine ⟨superclass, found', fun other => ?_⟩
    have same := superclasses id other
    unfold superclass? at same
    rw [typeAt_eq_ok.mp found, typeAt_eq_ok.mp found'] at same
    exact same

/-- Tables that differ in nothing are the same. -/
theorem SameBut.eq {P : TypeId → Prop} {t t' : BindingTable} (same : t.SameBut P t')
    (none : ∀ id, ¬ P id) : t' = t := by
  obtain ⟨fields, methods, size, entries⟩ := same
  have types : t'.types = t.types := by
    refine Array.ext size fun i high low => ?_
    obtain ⟨superclass, found, kept⟩ :=
      entries ⟨i⟩ t.types[i] (typeAt_eq_ok.mpr (Array.getElem?_eq_getElem low))
    have entry := typeAt_eq_ok.mp found
    rw [Array.getElem?_eq_getElem high, kept (none _)] at entry
    exact Option.some.inj entry
  exact ext_of_entries types fields methods

end BindingTable

namespace CompilationUnit

/-- Binding a labelled unit declares nothing, and the table stays as it is but for the superclasses
of types as described, if the others are recorded. -/
theorem Labelled.declaresNothing {u : CompilationUnit} {t : BindingTable} (labelled : u.Labelled t)
    {P : TypeId → Prop}
    (recorded : ∀ id p, lastClause (u.preorder.map (·.head)) id = some p → ¬ P id →
    t.superclass? id = some p) :
    u.DeclaresNothing t ∧ t.SameBut P (u.bind t).table := by
  have declaring :
      Edit.list (declareTopLevel u.package) u.types (.start t) = (.done u.types, .start t) := by
    have stay : (Edit.list (declareTopLevel u.package) u.types).Returns (· = .start t) u.types :=
      Edit.Returns.list fun d hd => declareType_labelled _ (labelled.fits d hd) fun x hx =>
        labelled.types x (List.mem_flatMap.mpr ⟨d, hd, hx⟩)
    obtain ⟨s, run, rfl⟩ := stay _ rfl
    exact run
  have heads : ∀ x ∈ u.types.flatMap TypeDecl.declarations, x.head.Resolvable t.Extends False :=
    fun x hx => (labelled.types x (u.preorder_perm.mem_iff.mpr hx)).resolvable
  obtain ⟨types, s', resolving, -⟩ := (resolveTypes_yields (admitsLocals_of_extends t) u.types
    heads).succeeds (s := .start t) (.refl t)
  obtain ⟨-, filled, steps⟩ := resolveTypes_filled resolving
  change List.Forall₂ TypeDecl.FillsTo u.preorder _ at filled
  change Steps _ _ (u.preorder.flatMap (·.contents.locals)) _ (u.preorder.map (·.head)) _ at steps
  have noLocals : (u.preorder.flatMap (·.contents.locals)).countP (·.binding.isNone) = 0 := by
    refine List.countP_eq_zero.mpr fun l hl => ?_
    obtain ⟨d, hd, hl⟩ := List.mem_flatMap.mp hl
    obtain ⟨v, bound⟩ := (labelled.types d hd).contents.locals l hl
    simp [bound]
  have size := steps.size
  have counts := steps.stats
  rw [noLocals] at size counts
  have noTypes : s'.table.types.size = t.types.size := by
    refine Nat.le_antisymm (Nat.le_of_not_lt fun more => ?_) steps.table.grown.moreTypes
    obtain ⟨h, hh, c, written, unbound, -⟩ := steps.types t.types.size (Nat.le_refl _) more
    obtain ⟨d, hd, rfl⟩ := List.mem_map.mp hh
    obtain ⟨p, bound⟩ := (labelled.types d hd).clause c written
    rw [unbound] at bound
    cases bound
  -- The clauses are those of the unit, so that recording them sets what is there already.
  have clauses := lastClause_of_fills filled labelled.types
  have superclasses : ∀ id, ¬ P id → s'.table.superclass? id = t.superclass? id := by
    intro id other
    cases last : lastClause (u.preorder.map (·.head)) id with
    | some p =>
      rw [recorded id p last other]
      exact steps.clauses.written id p (by rw [clauses]; exact last)
    | none =>
      by_cases below : id.index < t.types.size
      · exact steps.clauses.others id (by rw [clauses]; exact last) below
      · unfold BindingTable.superclass?
        rw [Array.getElem?_eq_none (Nat.le_of_not_lt below),
          Array.getElem?_eq_none (by rw [noTypes]; exact Nat.le_of_not_lt below)]
  have table : t.SameBut P s'.table := steps.table.sameBut size steps.methods noTypes superclasses
  refine ⟨⟨⟨s'.stats.names, ?_⟩, ?_⟩, ?_⟩ <;> rw [bind_eq declaring resolving]
  · generalize s'.stats = counted at counts ⊢
    obtain ⟨types, fields, methods, locals, names⟩ := counted
    obtain ⟨rfl, rfl, rfl, rfl⟩ := counts
    rfl
  · exact filled.imp fun d d' one => List.rel_append one.head.handles one.contents.handles
  · exact table

/-- Binding a bound unit again declares nothing and leaves the table as it is. -/
theorem bind_again {u : CompilationUnit} {t : BindingTable} {stats : Binding.Stats}
    (success : (u.bind t).result = .ok stats) :
    (u.bind t).unit.DeclaresNothing (u.bind t).table ∧
      ((u.bind t).unit.bind (u.bind t).table).table = (u.bind t).table := by
  obtain ⟨labelled, recorded⟩ := bind_labelled success
  obtain ⟨nothing, same⟩ := labelled.declaresNothing (P := fun _ => False) fun id p last _ =>
    recorded id p last
  exact ⟨nothing, same.eq fun _ => id⟩

end CompilationUnit

end ClassInit
