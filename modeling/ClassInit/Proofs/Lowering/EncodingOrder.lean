import ClassInit.Proofs.Lowering.EncodingSteps

/-!
# Encodings are ordered

A unit that is lowered for the plain encoding is lowered for the narrow one, and what becomes of
each of its types compares as `EncodingOrdered` says: the constructors look the same, initializers
stay that stayed, and the static routine has the same statements but for assignments of texts
(`CompilationUnit.lower_encodings`).
-/

set_option autoImplicit false

namespace ClassInit

namespace Lowering

variable {t : BindingTable} {options : Options} {type : TypeId} {routine name : String}
  {d d' : TypeDecl} {s s' : State}

/-! ## Copies -/

section

variable {p p' q q' : Fragment} {f f' g g' : FieldDecl} {a a' c c' x : TypeDecl}

/-- Fragments compare as others do that differ from them in node ids at most. -/
theorem FragmentKeeps.of_erase (keeps : FragmentKeeps p q) (same : p.erase id = p'.erase id)
    (same' : q.erase id = q'.erase id) : FragmentKeeps p' q' := by
  simp only [Fragment.erase, Fragment.mk.injEq] at same same'
  obtain ⟨-, name, initializer, binding⟩ := same
  obtain ⟨-, name', initializer', binding'⟩ := same'
  refine ⟨by rw [← name', keeps.name, name], by rw [← binding', keeps.binding,
    binding], fun e found => ?_⟩
  rw [found, Option.map_some] at initializer
  obtain ⟨e₁, found₁, erased⟩ := Option.map_eq_some_iff.mp initializer
  obtain ⟨e₂, found₂, stays⟩ := keeps.initializer e₁ found₁
  rw [found₂, Option.map_some, eq_comm] at initializer'
  obtain ⟨e₃, found₃, erased'⟩ := Option.map_eq_some_iff.mp initializer'
  exact ⟨e₃, found₃, by rw [erased', stays, erased]⟩

/-- Lists whose items are related stay so if the items are replaced by others that erase alike. -/
theorem forall₂_of_erase {α : Type} {R : α → α → Prop} {look : α → α} {as as' bs bs' : List α}
    (related : List.Forall₂ R as bs) (same : as.map look = as'.map look)
    (same' : bs.map look = bs'.map look)
    (replace : ∀ a a' b b', R a b → look a = look a' → look b = look b' → R a' b') :
    List.Forall₂ R as' bs' := by
  have left := forall₂_trans (T := fun a' b => ∃ a, look a = look a' ∧ R a b)
    (fun a' a b looks holds => ⟨a, looks.symm, holds⟩) (forall₂_of_map_eq same.symm) related
  exact forall₂_trans (fun a' b b' ⟨a, looks, holds⟩ looks' =>
    replace a a' b b' holds looks looks') left
    (forall₂_of_map_eq same')

/-- How fields are related is known up to ids. -/
theorem FieldKeeps.of_erase (keeps : FieldKeeps f g) (same : f.erase id = f'.erase id)
    (same' : g.erase id = g'.erase id) : FieldKeeps f' g' := by
  simp only [FieldDecl.erase, FieldDecl.mk.injEq] at same same'
  obtain ⟨-, -, modifiers, type, fragments⟩ := same
  obtain ⟨-, -, modifiers', type', fragments'⟩ := same'
  refine ⟨by rw [← modifiers', keeps.modifiers, modifiers], by rw [← type', keeps.type, type], ?_⟩
  exact forall₂_of_erase keeps.fragments fragments fragments' fun _ _ _ _ => FragmentKeeps.of_erase

theorem routineStatements_erase (routine : String) (d : TypeDecl) :
    routineStatements routine (d.erase id) = (routineStatements routine d).map (Stmt.erase id) := by
  rw [routineStatements, TypeDecl.findMethod?_erase, routineStatements]
  rcases d.findMethod? routine 0 with _ | m
  · rfl
  · exact MethodDecl.statements_erase id m

/-- How lists are thinned is known up to ids. -/
theorem Thinned.of_erase {h : Option MethodId → Option MethodId} {fs : List Fragment}
    {ss ss' rest rest' : List Stmt} (thinned : Thinned h (AssignsText t fs) ss rest)
    (same : ss.map (Stmt.erase id) = ss'.map (Stmt.erase id))
    (same' : rest.map (Stmt.erase id) = rest'.map (Stmt.erase id)) :
    Thinned h (AssignsText t fs) ss' rest' := by
  have looks : ∀ {s s' : Stmt}, s.erase id = s'.erase id → s.look h = s'.look h :=
    fun {s s'} erased => by
    rw [← s.look_erase h, erased, s'.look_erase h]
  induction thinned generalizing ss' rest' with
  | nil =>
    obtain rfl := List.map_eq_nil_iff.mp same.symm
    obtain rfl := List.map_eq_nil_iff.mp same'.symm
    exact .nil
  | keep stays _ ih =>
    obtain ⟨s', ss', rfl, one, others⟩ := List.map_eq_cons_iff.mp same.symm
    obtain ⟨r', rest', rfl, one', others'⟩ := List.map_eq_cons_iff.mp same'.symm
    exact .keep ((looks one).trans (stays.trans (looks one').symm)) (ih others.symm others'.symm)
  | leave assigns _ ih =>
    obtain ⟨s', ss', rfl, one, others⟩ := List.map_eq_cons_iff.mp same.symm
    obtain ⟨f, listed, e, init, text, assigned⟩ := assigns
    exact .leave ⟨f, listed, e, init, text, one.trans assigned⟩ (ih others.symm same')

/-- Copies compare as what they are copies of. -/
theorem EncodingOrdered.of_erase (ordered : EncodingOrdered t routine x a c)
    (same : a.erase id = a'.erase id) (same' : c.erase id = c'.erase id) :
    EncodingOrdered t routine x a' c' := by
  have methods : ∀ {d d' : TypeDecl}, d.erase id = d'.erase id →
      d.methods.map (MethodDecl.look t.mergeAdded) =
        d'.methods.map (MethodDecl.look t.mergeAdded) := by
    intro d d' same
    have erased : d.methods.map (MethodDecl.erase id) = d'.methods.map (MethodDecl.erase id) := by
      rw [← TypeDecl.methods_erase, same, TypeDecl.methods_erase]
    exact (map_eq_of_forall₂ ((forall₂_of_map_eq erased).imp fun _ _ one =>
      (MethodDecl.look_of_erase one).symm)).symm
  have fields : ∀ {d d' : TypeDecl}, d.erase id = d'.erase id →
      d.fields.map (FieldDecl.erase id) = d'.fields.map (FieldDecl.erase id) := by
    intro d d' same
    rw [← TypeDecl.fields_erase, same, TypeDecl.fields_erase]
  have statements : ∀ {d d' : TypeDecl}, d.erase id = d'.erase id →
      (routineStatements routine d).map (Stmt.erase id) =
        (routineStatements routine d').map (Stmt.erase id) := by
    intro d d' same
    rw [← routineStatements_erase, same, routineStatements_erase]
  refine ⟨?_, ?_, ?_, ordered.statics.of_erase (statements same) (statements same')⟩
  · rw [← (TypeDecl.erase_eq_iff.mp same').1, ordered.head, (TypeDecl.erase_eq_iff.mp same).1]
  · rw [← constructors_look (methods same), ordered.constructors, constructors_look (methods same')]
  · exact forall₂_of_erase ordered.fields (fields same) (fields same') fun _ _ _ _ =>
      FieldKeeps.of_erase

end

/-! ## What becomes of a type -/

section

variable {a c x : TypeDecl}

/-- What becomes of one declaration under the two encodings is ordered. -/
theorem Becomes.ordered (plain : Becomes ⟨routine, .ascii⟩ t x a)
    (narrow : Becomes ⟨routine, .cpp⟩ t x c) :
    EncodingOrdered t routine x a c := by
  obtain ⟨levels, s, a₀, s₁, grown, run, same⟩ := plain
  obtain ⟨levels', s', c₀, s₁', grown', run', same'⟩ := narrow
  refine EncodingOrdered.of_erase ?_ same same'
  rcases levels with _ | levels
  · exact absurd run Edit.stop_ne_done
  rcases levels' with _ | levels'
  · exact absurd run' Edit.stop_ne_done
  obtain ⟨type, descriptor, d₁, s₂, s₃, bound, described, nested, own, -⟩ := lowerType_steps run
  obtain ⟨type', descriptor', e₁, s₂', s₃', bound', described', nested', own', -⟩ :=
    lowerType_steps run'
  -- Both runs find the same entry.
  rw [bound] at bound'
  cases bound'
  rw [grown.typeAt] at described
  rw [grown'.typeAt, described] at described'
  cases described'
  obtain ⟨-, head, -⟩ := lowerNested_done nested
  obtain ⟨-, head', -⟩ := lowerNested_done nested'
  have grown₂ : t.Grows s₂.table :=
    grown.trans ((lowerNested_moves (lowerType_moves _ levels) x).run nested)
  have grown₂' : t.Grows s₂'.table :=
    grown'.trans ((lowerNested_moves (lowerType_moves _ levels') x).run nested')
  obtain ⟨-, c₁, s₄', again, ordered, -⟩ := lowerOwn_follows described head head'
    (lowerNested_alike (fun _ _ _ _ => lowerType_head) nested)
    (lowerNested_alike (fun _ _ _ _ => lowerType_head) nested') _ grown₂ grown₂' own
  have unique : (Outcome.done c₁, s₄') = (Outcome.done c₀, s₃') := again.symm.trans own'
  cases unique
  exact ordered

/-- Every type in a type that is lowered becomes something. -/
theorem lowerType_becomes {options : Options} (levels : Nat) {s s' : State}
    (grown : t.Grows s.table) (run : lowerType options levels d s = (.done d', s')) :
    ∀ x ∈ d.declarations, ∃ a, Becomes options t x a := by
  induction levels generalizing d d' s s' with
  | zero => exact absurd run Edit.stop_ne_done
  | succ levels ih =>
    intro x hx
    rw [TypeDecl.declarations_eq] at hx
    rcases List.mem_cons.mp hx with rfl | hx
    · exact ⟨d', levels + 1, s, d', s', grown, run, rfl⟩
    · obtain ⟨c, hc, hx⟩ := List.mem_flatMap.mp hx
      obtain ⟨_, _, d₁, s₁, _, -, -, nested, -, -⟩ := lowerType_steps run
      obtain ⟨listed, -, -⟩ := lowerNested_done nested
      obtain ⟨c', s₂, s₃, before, step, -⟩ :=
        Edit.exists_run_of_mem State.Grows.refl State.Grows.trans
        (lowerType_moves _ levels) listed hc
      exact ih (grown.trans before) step x hx

end

end Lowering

/-! ## Units -/

namespace CompilationUnit

variable {u : CompilationUnit} {t : BindingTable}

/-- Every declaration of a unit that is lowered becomes something. -/
theorem lower_becomes {options : Lowering.Options} {stats : Lowering.Stats}
    (success : (u.lower t options).result = .ok stats) :
    ∀ x ∈ u.declarations, ∃ a, Lowering.Becomes options t x a := by
  intro x hx
  obtain ⟨d, hd, hx⟩ := List.mem_flatMap.mp hx
  obtain ⟨d', s₁, s₂, before, step, -⟩ := Edit.exists_run_of_mem Lowering.State.Grows.refl
    Lowering.State.Grows.trans (Lowering.lowerType_moves options (Limits.typeNesting + 1))
    (lower_run success) hd
  exact Lowering.lowerType_becomes _ before step x hx

/-- A unit that is lowered for the plain encoding is lowered for the narrow one. -/
theorem lower_narrow {routine : String} {stats : Lowering.Stats}
    (success : (u.lower t ⟨routine, .ascii⟩).result = .ok stats) :
    ∃ stats', (u.lower t ⟨routine, .cpp⟩).result = .ok stats' := by
  have follows : Lowering.EditFollows t (List.Forall₂ fun _ _ => True)
      (Edit.list (Lowering.lowerTopLevel ⟨routine, .ascii⟩) u.types)
      (Edit.list (Lowering.lowerTopLevel ⟨routine, .cpp⟩) u.types) :=
    .list (List.forall₂_same.mpr fun d _ => Lowering.lowerType_follows _ d)
  have start : t.Grows (⟨t, u.supply, .zero⟩ : Lowering.State).table := .refl t
  obtain ⟨-, ds, s, run, -, -⟩ := follows start start (lower_run success)
  have run : Edit.list (Lowering.lowerTopLevel ⟨routine, .cpp⟩) u.types ⟨t, u.supply, .zero⟩ =
    (.done ds, s) := run
  refine ⟨s.stats, ?_⟩
  rw [lower, run]

/-- A unit that is lowered for the plain encoding is lowered for the narrow one, from the same
table, and the declarations of both outputs stand in the same order: in each place both have what
one and the same declaration of the unit becomes, and no declaration is missing but those in blocks
for instances of a type that initializes none. What a declaration becomes for the two encodings
compares as follows, up to node ids, handles of created methods and the contents of the types
inside: the constructors look the same, an initializer that stays or is folded for the plain
encoding is the same expression for the narrow one, and the static routine for the narrow encoding
is the one for the plain encoding with some assignments left out, each to a field of the type whose
initializer is a string literal or folds to a string. -/
theorem lower_encodings {routine : String} {stats : Lowering.Stats}
    (success : (u.lower t ⟨routine, .ascii⟩).result = .ok stats) :
    (∃ stats', (u.lower t ⟨routine, .cpp⟩).result = .ok stats') ∧
      (∀ encoding, List.Forall₂ (Lowering.Becomes ⟨routine, encoding⟩ t) (u.placed t)
        (u.lower t ⟨routine, encoding⟩).unit.declarations) ∧
      List.Forall₂ (fun x pair => Lowering.EncodingOrdered t routine x pair.1 pair.2) (u.placed t)
        ((u.lower t ⟨routine, .ascii⟩).unit.declarations.zip
          (u.lower t ⟨routine, .cpp⟩).unit.declarations) ∧
      (∀ x ∈ u.placed t, x ∈ u.declarations) ∧
      (∀ x ∈ u.declarations, x ∈ u.placed t ∨ ∃ y ∈ u.declarations, y.Drops t x) ∧
      ∀ x ∈ u.declarations, (∀ encoding, ∃ a, Lowering.Becomes ⟨routine, encoding⟩ t x a) ∧
        ∀ a c, Lowering.Becomes ⟨routine, .ascii⟩ t x a → Lowering.Becomes ⟨routine, .cpp⟩ t x c →
          Lowering.EncodingOrdered t routine x a c := by
  obtain ⟨stats', success'⟩ := lower_narrow success
  have plain := lower_placed success
  have narrow := lower_placed success'
  refine ⟨⟨stats', success'⟩, fun encoding => ?_, forall₂_zip plain narrow fun _ _ _ =>
    Lowering.Becomes.ordered,
    fun _ => mem_declarations_of_mem_placed, fun _ => mem_placed_or_drops success,
    fun x hx => ⟨fun encoding => ?_, fun _ _ => Lowering.Becomes.ordered⟩⟩
  · cases encoding with
    | ascii => exact plain
    | cpp => exact narrow
  · cases encoding with
    | ascii => exact lower_becomes success x hx
    | cpp => exact lower_becomes success' x hx

/-- A class with two constructors and a member type, and a second class: `class A { static String s
= "é"; int x = 1; { class L { static String t = "ü"; } } A() { } A(int n) { } class M { } } class B
{ }`. -/
def accentSample : CompilationUnit :=
  let n : NodeInfo := ⟨.unassigned, .dummy⟩
  let type (name : String) (ms : List Member) : TypeDecl :=
    ⟨⟨.unassigned, .dummy, .classType, name, .empty, none, none, []⟩, ms⟩
  let field (modifiers : Modifiers) (type : TypeRef) (name : String) (v : Literal) : Member :=
    .field ⟨.unassigned, .dummy, modifiers, type,
      [⟨.dummy, name, some (.literal ⟨.unassigned, .dummy, none⟩ v), none⟩]⟩
  let text := field (.of .static) (.declared ⟨"String", none⟩)
  let constructor (parameters : List Parameter) : Member :=
    .method ⟨⟨.unassigned, .dummy, "A", .empty, .void, parameters, true, none, false⟩, some ⟨n, []⟩⟩
  ⟨"A.java", none, [
    type "A" [text "s" (.string "\u00e9"), field .empty (.primitive .int) "x" (.int 1),
      .initializer ⟨n, false, ⟨n, [.localType n (type "L" [text "t" (.string "\u00fc")])]⟩⟩,
      constructor [], constructor [⟨"n", .primitive .int, none⟩], .type (type "M" [])],
    type "B" []], .initial⟩

/-- The local class is copied into both constructors. The accents are assigned by static routines
for the plain encoding and stay for the narrow one. -/
theorem lower_encodings_accent :
    let bound := accentSample.bind .new
    let lowered (encoding : LiteralEncoding) := bound.unit.lower bound.table ⟨"init", encoding⟩
    let assigned (u : CompilationUnit) :=
      u.declarations.map fun d => (d.name, (Lowering.routineStatements "init" d).length)
    (∃ stats, (lowered .ascii).result = .ok stats) ∧ (∃ stats, (lowered .cpp).result = .ok stats) ∧
      (bound.unit.placed bound.table).map (·.name) = ["A", "M", "L", "L", "B"] ∧
      assigned (lowered .ascii).unit = [("A", 1), ("M", 0), ("L", 1), ("L", 1), ("B", 0)] ∧
      assigned (lowered .cpp).unit = [("A", 0), ("M", 0), ("L", 0), ("L", 0), ("B", 0)] ∧
      List.Forall₂ (fun x pair => Lowering.EncodingOrdered bound.table "init" x pair.1 pair.2)
        (bound.unit.placed bound.table)
        ((lowered .ascii).unit.declarations.zip (lowered .cpp).unit.declarations) := by
  intro bound lowered assigned
  have succeeds : (lowered .ascii).result.isOk = true := by decide +kernel
  cases success : (lowered .ascii).result with
  | error e =>
    rw [success] at succeeds
    cases succeeds
  | ok stats =>
    obtain ⟨narrow, -, ordered, -⟩ := lower_encodings success
    exact ⟨⟨stats, rfl⟩, narrow, by decide +kernel, by decide +kernel, by decide +kernel, ordered⟩

end CompilationUnit

end ClassInit
