import ClassInit.Binding.Unit
import ClassInit.Proofs.Binding.Declaring
import ClassInit.Proofs.Binding.Resolving
import ClassInit.Proofs.Binding.Rounds

/-!
# Handles that fit

The handles of a unit fit a table if they tell its types and fields apart and the table has entries
for them of the right kind, with no constants but those of the initializers. A unit without handles
fits every table (`CompilationUnit.HandlesFit.of_unbound`); binding the unit and recording its
constants keep the handles fitting (`CompilationUnit.bind_fits`,
`CompilationUnit.bindConstants_fits`).
-/

set_option autoImplicit false

namespace ClassInit

/-! ## Values of initializers -/

/-- The value that the initializer of a declarator gives its field, if it is a constant. -/
def FieldSlot.value? (t : BindingTable) (s : FieldSlot) : Option Constant :=
  s.fragment.initializer.bind fun e => (t.constantValue e).bind (·.convertTo s.type)

/-- A constant that is recorded for the field is the value of its initializer. -/
def FieldSlot.Recorded (t : BindingTable) (s : FieldSlot) : Prop :=
  ∀ v, s.fragment.binding = some v → ∀ k, t.variableConstant v = some k → s.value? t = some k

theorem FieldSlot.value?_eq_some {t : BindingTable} {s : FieldSlot} {k : Constant} :
    s.value? t = some k ↔
      ∃ e, s.fragment.initializer = some e ∧ ∃ c, t.constantValue e = some c ∧
        c.convertTo s.type = some k := by
  rw [FieldSlot.value?, Option.bind_eq_some_iff]
  simp only [Option.bind_eq_some_iff]

theorem FieldSlot.value?_mono {t t' : BindingTable} (more : t.KnowsMore t') {s : FieldSlot}
    {k : Constant} (value : s.value? t = some k) : s.value? t' = some k := by
  obtain ⟨e, init, c, constant, converted⟩ := FieldSlot.value?_eq_some.mp value
  exact FieldSlot.value?_eq_some.mpr ⟨e, init, c, more.constantValue constant, converted⟩

/-- Resolving its names keeps the value of an initializer. -/
theorem FieldSlot.ResolvesTo.value? {t : BindingTable} {s s' : FieldSlot}
    (resolved : s.ResolvesTo s') {k : Constant} (value : s.value? t = some k) :
    s'.value? t = some k := by
  obtain ⟨e, init, c, constant, converted⟩ := FieldSlot.value?_eq_some.mp value
  obtain ⟨e', init', folds⟩ := resolved.initializer e init
  refine FieldSlot.value?_eq_some.mpr ⟨e', init', c, folds _ 0 c constant, ?_⟩
  rw [resolved.type]
  exact converted

/-! ## Fitting handles -/

/-- The handles that a unit carries fit the table: no two types and no two fields share one, the
entries are there, those of types tell their kinds, and a constant that is recorded for a field is
the value of its initializer. -/
structure CompilationUnit.HandlesFit (u : CompilationUnit) (t : BindingTable) : Prop where
  distinctTypes : (u.heads.filterMap TypeHead.key).Nodup
  distinctFields : (u.allSlots.filterMap FieldSlot.key).Nodup
  kinds : ∀ h ∈ u.heads, ∀ id, h.binding = some id →
    ∃ descriptor, t.typeAt id = .ok descriptor ∧ descriptor.kind = h.kind
  entries : ∀ s ∈ u.allSlots, ∀ v, s.fragment.binding = some v → v.index < t.vars.size
  recorded : ∀ s ∈ u.allSlots, s.Recorded t

namespace CompilationUnit

/-- The handles of a unit that has none fit every table. -/
theorem HandlesFit.of_unbound {u : CompilationUnit} (t : BindingTable)
    (types : ∀ h ∈ u.heads, h.binding = none)
    (fields : ∀ s ∈ u.allSlots, s.fragment.binding = none) : u.HandlesFit t := by
  have noTypes : u.heads.filterMap TypeHead.key = [] := by
    rw [List.filterMap_eq_nil_iff]
    intro h hh
    rw [TypeHead.key, types h hh]
    rfl
  have noFields : u.allSlots.filterMap FieldSlot.key = [] := by
    rw [List.filterMap_eq_nil_iff]
    intro s hs
    rw [FieldSlot.key, fields s hs]
    rfl
  constructor
  · rw [noTypes]
    exact List.nodup_nil
  · rw [noFields]
    exact List.nodup_nil
  · intro h hh id bound
    rw [types h hh] at bound
    cases bound
  · intro s hs v bound
    rw [fields s hs] at bound
    cases bound
  · intro s hs v bound
    rw [fields s hs] at bound
    cases bound

/-! ## Binding a unit -/

/-- Declaring what a unit declares, in terms of the listing of all its types. -/
theorem declareTypes_done {u : CompilationUnit} {t : BindingTable} {types : List TypeDecl}
    {s : Binding.State}
    (run : Edit.list (Binding.declareTopLevel u.package) u.types (.start t) = (.done types, s)) :
    Declares t s.table u.heads ((types.flatMap TypeDecl.declarations).map (·.head)) u.allSlots
      ((types.flatMap TypeDecl.declarations).flatMap TypeDecl.slots) := by
  have declared := Declares.list Binding.State.table TypeDecl.heads TypeDecl.allSlots
    (fun _ _ _ _ run => Binding.declareType_done run) run
  have heads : ∀ ds : List TypeDecl, ds.flatMap TypeDecl.heads =
      (ds.flatMap TypeDecl.declarations).map (·.head) := by
    intro ds
    rw [List.map_flatMap]
    rfl
  have slots : ∀ ds : List TypeDecl, ds.flatMap TypeDecl.allSlots =
      (ds.flatMap TypeDecl.declarations).flatMap TypeDecl.slots := by
    intro ds
    rw [List.flatMap_assoc]
    rfl
  rw [heads, heads, slots, slots] at declared
  exact declared

/-- A unit that is bound is declared first and then resolved. -/
theorem bind_runs {u : CompilationUnit} {t : BindingTable} {stats : Binding.Stats}
    (success : (u.bind t).result = .ok stats) :
    ∃ ds s s', Edit.list (Binding.declareTopLevel u.package) u.types (.start t) = (.done ds, s) ∧
      (ds.mapM TypeDecl.resolve).run s = (.ok (u.bind t).unit.types, s') ∧
      (u.bind t).table = s'.table := by
  unfold bind at success ⊢
  rcases declaring : Edit.list (Binding.declareTopLevel u.package) u.types (.start t) with
    ⟨⟨ds⟩ | ⟨ds, e⟩, s⟩
  · rw [declaring] at success
    simp only at success ⊢
    rcases resolving : (ds.mapM TypeDecl.resolve).run s with ⟨e | ds', s'⟩
    · rw [resolving] at success
      cases success
    · exact ⟨ds, s, s', rfl, resolving, rfl⟩
  · rw [declaring] at success
    cases success

/-- The handles of a unit that is bound come from declaring, and resolving keeps them. -/
theorem bind_done {u : CompilationUnit} {t : BindingTable} {stats : Binding.Stats}
    (success : (u.bind t).result = .ok stats) :
    ∃ t₁ ds, Declares t t₁ u.heads (ds.map (·.head)) u.allSlots (ds.flatMap TypeDecl.slots) ∧
      t₁.Extends (u.bind t).table ∧ ResolvedDecls ds (u.bind t).unit.declarations := by
  obtain ⟨ds, s, s', declaring, resolving, table⟩ := bind_runs success
  obtain ⟨resolved, grown⟩ := (resolveTypes_yields (admitsLocals_of_extends s.table) ds
    fun x _ => x.head.resolvable_of_extends s.table).of_ok (.refl s.table) resolving
  rw [table]
  exact ⟨s.table, ds.flatMap TypeDecl.declarations, declareTypes_done declaring, grown, resolved⟩

theorem heads_key_of_resolved {ds ds' : List TypeDecl} (resolved : ResolvedDecls ds ds') :
    (ds'.map (·.head)).filterMap TypeHead.key = (ds.map (·.head)).filterMap TypeHead.key := by
  induction resolved with
  | nil => rfl
  | cons one _ ih =>
    rw [List.map_cons, List.map_cons, List.filterMap_cons, List.filterMap_cons, ih, TypeHead.key,
      TypeHead.key, one.binding]

theorem slots_resolved {ds ds' : List TypeDecl} (resolved : ResolvedDecls ds ds') :
    List.Forall₂ FieldSlot.ResolvesTo (ds.flatMap TypeDecl.slots) (ds'.flatMap TypeDecl.slots) := by
  induction resolved with
  | nil => exact .nil
  | cons one _ ih => exact List.rel_append one.slots ih

theorem slots_key_of_resolved {ss ss' : List FieldSlot}
    (resolved : List.Forall₂ FieldSlot.ResolvesTo ss ss') :
    ss'.filterMap FieldSlot.key = ss.filterMap FieldSlot.key := by
  induction resolved with
  | nil => rfl
  | cons one _ ih =>
    rw [List.filterMap_cons, List.filterMap_cons, ih, FieldSlot.key, FieldSlot.key, one.binding]

theorem HandlesFit.types_below {u : CompilationUnit} {t : BindingTable} (fit : u.HandlesFit t) :
    ∀ n ∈ u.heads.filterMap TypeHead.key, n < t.types.size := by
  intro n hn
  obtain ⟨h, hh, key⟩ := List.mem_filterMap.mp hn
  obtain ⟨id, bound, rfl⟩ := Option.map_eq_some_iff.mp key
  obtain ⟨descriptor, found, -⟩ := fit.kinds h hh id bound
  exact (Array.getElem?_eq_some_iff.mp (BindingTable.typeAt_eq_ok.mp found)).1

theorem HandlesFit.fields_below {u : CompilationUnit} {t : BindingTable} (fit : u.HandlesFit t) :
    ∀ n ∈ u.allSlots.filterMap FieldSlot.key, n < t.vars.size := by
  intro n hn
  obtain ⟨s, hs, key⟩ := List.mem_filterMap.mp hn
  obtain ⟨v, bound, rfl⟩ := Option.map_eq_some_iff.mp key
  exact fit.entries s hs v bound

/-- Binding gives every type and field a handle, and the handles fit if those that the unit carried
before did. -/
theorem bind_fits {u : CompilationUnit} {t : BindingTable} {stats : Binding.Stats}
    (fit : u.HandlesFit t) (success : (u.bind t).result = .ok stats) :
    (u.bind t).unit.HandlesFit (u.bind t).table := by
  obtain ⟨t₁, ds, declared, grown, resolved⟩ := bind_done success
  generalize (u.bind t).unit = u' at resolved ⊢
  generalize (u.bind t).table = t' at grown ⊢
  have slots := slots_resolved resolved
  have all := declared.grown.trans grown
  -- Resolving keeps all handles, so they are those that declaring has given or left.
  constructor
  · rw [heads, heads_key_of_resolved resolved]
    exact declared.types.distinct fit.distinctTypes fit.types_below
  · rw [allSlots, slots_key_of_resolved slots]
    exact declared.fields.distinct fit.distinctFields fit.fields_below
  · intro h' hh' id bound
    obtain ⟨d', hd', rfl⟩ := List.mem_map.mp hh'
    obtain ⟨d, hd, one⟩ := exists_mem_left resolved hd'
    rw [one.binding] at bound
    rw [one.kind]
    rcases declared.kinds d.head (List.mem_map_of_mem hd) with
      old | ⟨id', descriptor, bound', found, kind⟩
    · obtain ⟨descriptor, found, kind⟩ := fit.kinds _ old id bound
      obtain ⟨superclass, found'⟩ := all.oldTypes id descriptor found
      exact ⟨_, found', kind⟩
    · rw [bound] at bound'
      cases bound'
      obtain ⟨superclass, found'⟩ := grown.oldTypes id descriptor found
      exact ⟨_, found', kind⟩
  · intro s' hs' v bound
    obtain ⟨s, hs, one⟩ := exists_mem_left slots hs'
    rw [one.binding] at bound
    obtain ⟨n, key, origin⟩ := declared.fields.origin s hs
    rw [FieldSlot.key_of_binding bound] at key
    cases key
    refine Nat.lt_of_lt_of_le ?_ grown.moreVariables
    rcases origin with old | range
    · exact Nat.lt_of_lt_of_le (fit.entries s old v bound) declared.grown.moreVariables
    · exact range.2
  · intro s' hs' v bound k known
    obtain ⟨s, hs, one⟩ := exists_mem_left slots hs'
    rw [one.binding] at bound
    rw [all.variableConstant] at known
    obtain ⟨n, key, origin⟩ := declared.fields.origin s hs
    rw [FieldSlot.key_of_binding bound] at key
    cases key
    rcases origin with old | range
    · have value := one.value? (fit.recorded s old v bound k known)
      exact FieldSlot.value?_mono (fun w c h => by rw [all.variableConstant]; exact h) value
    · -- A new field has no constant yet.
      have outside : t.vars[v.index]? = none := Array.getElem?_eq_none range.1
      rw [BindingTable.variableConstant, outside] at known
      cases known

/-! ## Recording the constants of a unit -/

/-- The table that a unit is lowered with: bound, and with its constants recorded. -/
def knownTable (u : CompilationUnit) (t : BindingTable) : BindingTable :=
  ((u.bind t).table.bindConstants (u.bind t).unit).2

/-- Recording the constants of a unit whose fields have different handles finds values of candidates
of that unit. -/
theorem bindConstants_ok {u : CompilationUnit} {t : BindingTable} {n : Nat}
    (distinct : (u.allSlots.filterMap FieldSlot.key).Nodup)
    (success : (t.bindConstants u).1 = .ok n) :
    ∃ candidates, (∀ c ∈ candidates, ∃ s ∈ u.allSlots, Constants.IsCandidateOf t s c) ∧
      Constants.Sound candidates (t.bindConstants u).2 ∧
      Constants.Finds candidates t (t.bindConstants u).2 := by
  unfold BindingTable.bindConstants at success ⊢
  cases listed : Constants.ofUnit t u with
  | error e =>
    rw [listed] at success
    cases success
  | ok candidates =>
    rw [listed] at success
    simp only at success ⊢
    rw [Constants.ofUnit_eq] at listed
    obtain ⟨origin, sublist⟩ := Constants.ofSlots_ok listed
    rcases run : (Constants.rounds Limits.constantRounds candidates).run t with ⟨e | left, t'⟩
    · rw [run] at success
      cases success
    · have unique : (candidates.map (·.id)).Nodup := by
        refine List.Nodup.of_map VariableId.index ?_
        rw [List.map_map]
        exact distinct.sublist sublist
      have unknown : ∀ c ∈ candidates, t.variableConstant c.id = none := by
        intro c hc
        obtain ⟨s, -, isCandidate⟩ := origin c hc
        exact isCandidate.unknown
      obtain ⟨sound, finds⟩ := Constants.rounds_ok unique (.of_unknown unknown)
        ⟨fun _ hc => hc, unique, unknown⟩ run
      exact ⟨candidates, origin, sound, finds⟩

/-- Recording the constants of a unit keeps its handles fitting. -/
theorem bindConstants_fits {u : CompilationUnit} {t : BindingTable} {n : Nat}
    (fit : u.HandlesFit t) (success : (t.bindConstants u).1 = .ok n) :
    u.HandlesFit (t.bindConstants u).2 := by
  obtain ⟨candidates, origin, sound, finds⟩ := bindConstants_ok fit.distinctFields success
  generalize (t.bindConstants u).2 = t' at sound finds ⊢
  refine ⟨fit.distinctTypes, fit.distinctFields, ?_, ?_, ?_⟩
  · intro h hh id bound
    obtain ⟨descriptor, found, kind⟩ := fit.kinds h hh id bound
    refine ⟨descriptor, ?_, kind⟩
    rw [BindingTable.typeAt_eq_ok] at found ⊢
    rw [finds.types]
    exact found
  · intro s hs v bound
    rw [finds.size]
    exact fit.entries s hs v bound
  · intro s hs v bound k known
    -- Different handles: a constant of a candidate is the value of this very declarator.
    by_cases tried : ∃ c ∈ candidates, c.id = v
    · obtain ⟨c, hc, rfl⟩ := tried
      obtain ⟨s', hs', isCandidate⟩ := origin c hc
      obtain rfl := eq_of_nodup_keys fit.distinctFields hs hs' (FieldSlot.key_of_binding bound)
        (FieldSlot.key_of_binding isCandidate.binding)
      obtain ⟨folded, constant, converted⟩ := Option.bind_eq_some_iff.mp (sound c hc k known)
      refine FieldSlot.value?_eq_some.mpr ⟨_, isCandidate.initializer, folded, constant, ?_⟩
      rw [isCandidate.type]
      exact converted
    · rw [finds.others v fun c hc same => tried ⟨c, hc, same⟩] at known
      exact FieldSlot.value?_mono finds.more (fit.recorded s hs v bound k known)

end CompilationUnit

end ClassInit
