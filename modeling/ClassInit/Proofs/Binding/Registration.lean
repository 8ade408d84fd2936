import ClassInit.Proofs.Binding.Ranges

/-!
# What binding records

Binding a unit without handles gives every declaration a handle of its own, and the table an entry
for each that tells what the declaration says and where it stands; besides, the table gets the
classes that superclass clauses name and the class of all enums, where they are missing
(`CompilationUnit.bind_registers`).
-/

set_option autoImplicit false

namespace ClassInit

open Binding

/-! ## Numbers given out -/

/-- Every item has a handle, and the handles are the next so many numbers from `low` on, each
once. -/
structure HandedOut {α : Type} (key : α → Option Nat) (as : List α) (low count : Nat) : Prop where
  bound : ∀ a ∈ as, ∃ n, key a = some n
  once : (as.filterMap key).Perm (List.range' low count)

section

variable {α : Type} {key : α → Option Nat} {old new : List α} {low count : Nat}

/-- Items that had no handle get different new ones. -/
theorem Allocated.of_free {high : Nat} (allocated : Allocated key old new low high)
    (free : ∀ a ∈ old, key a = none) :
    (new.filterMap key).Nodup ∧ ∀ a ∈ new, ∃ n, key a = some n ∧ low ≤ n ∧ n < high := by
  have none : old.filterMap key = [] := List.filterMap_eq_nil_iff.mpr free
  refine ⟨allocated.distinct ?_ fun n hn => ?_, fun a ha => ?_⟩
  · rw [none]
    exact List.nodup_nil
  · rw [none] at hn
    exact absurd hn List.not_mem_nil
  · obtain ⟨n, gets, inOld | range⟩ := allocated.origin a ha
    · rw [free a inOld] at gets
      cases gets
    · exact ⟨n, gets, range⟩

/-- Items that had no handle, counted, and got as many different ones as there are numbers got them
all. -/
theorem Allocated.handedOut {high : Nat} {counts : α → Bool}
    (allocated : Allocated key old new low high) (free : ∀ a ∈ old, key a = none ∧ counts a)
    (length : old.length = new.length) (size : high = low + old.countP counts) :
    HandedOut key new low (old.countP counts) := by
  have count : old.countP counts = old.length := List.countP_eq_length.mpr fun a ha => (free a ha).2
  obtain ⟨distinct, origin⟩ := allocated.of_free fun a ha => (free a ha).1
  have inRange : new.filterMap key ⊆ List.range' low (old.countP counts) := by
    intro n hn
    obtain ⟨a, ha, gets⟩ := List.mem_filterMap.mp hn
    obtain ⟨m, gets', range⟩ := origin a ha
    rw [gets] at gets'
    cases gets'
    rw [size] at range
    exact List.mem_range'_1.mpr range
  have all : (new.filterMap key).length = new.length := by
    refine List.filterMap_length_eq_length.mpr fun a ha => ?_
    obtain ⟨n, gets, -⟩ := origin a ha
    rw [gets]
    rfl
  refine ⟨fun a ha => (origin a ha).imp fun _ h => h.1, ?_⟩
  -- Different numbers out of a range, as many as it has, are all of it.
  refine (List.subperm_of_subset distinct inRange).perm_of_length_le ?_
  exact Nat.le_of_eq (by rw [List.length_range', all, count, length])

/-- Items that keep their handles have the same numbers. -/
theorem filterMap_key_of_forall₂ {R : α → α → Prop}
    (keeps : ∀ a b, R a b → ∀ n, key a = some n → key b = some n) (related : List.Forall₂ R old new)
    (bound : ∀ a ∈ old, ∃ n, key a = some n) :
    new.filterMap key = old.filterMap key := by
  induction related with
  | nil => rfl
  | cons one _ ih =>
    obtain ⟨⟨n, gets⟩, bound⟩ := List.forall_mem_cons.mp bound
    rw [List.filterMap_cons_some gets, List.filterMap_cons_some (keeps _ _ one n gets), ih bound]

/-- Items that keep their handles keep the numbers. -/
theorem HandedOut.of_forall₂ {R : α → α → Prop}
    (keeps : ∀ a b, R a b → ∀ n, key a = some n → key b = some n) (related : List.Forall₂ R old new)
    (given : HandedOut key old low count) : HandedOut key new low count := by
  refine ⟨fun b hb => ?_, ?_⟩
  · obtain ⟨a, ha, one⟩ := exists_mem_left related hb
    exact (given.bound a ha).imp fun n gets => keeps a b one n gets
  · rw [filterMap_key_of_forall₂ keeps related given.bound]
    exact given.once

end

theorem VariableSlot.free {l : VariableSlot} (unbound : l.binding = none) :
    l.key = none ∧ l.binding.isNone := by
  rw [key, unbound]
  exact ⟨rfl, rfl⟩

theorem MethodHead.free {h : MethodHead} (unbound : h.binding = none) :
    h.key = none ∧ h.binding.isNone := by
  rw [key, unbound]
  exact ⟨rfl, rfl⟩

theorem VariableSlot.FillsTo.key (l l' : VariableSlot) (filled : l.FillsTo l') (n : Nat)
    (number : l.key = some n) : l'.key = some n := by
  obtain ⟨v, bound, rfl⟩ := Option.map_eq_some_iff.mp number
  rw [VariableSlot.key, filled.kept v bound]
  rfl

theorem MethodHead.FillsTo.key (h h' : MethodHead) (filled : h.FillsTo h') (n : Nat)
    (number : h.key = some n) : h'.key = some n := by
  obtain ⟨id, bound, rfl⟩ := Option.map_eq_some_iff.mp number
  rw [MethodHead.key, filled.kept id bound]
  rfl

theorem TypeDecl.FillsTo.key (d d' : TypeDecl) (filled : d.FillsTo d') (n : Nat)
    (number : d.head.key = some n) : d'.head.key = some n := by
  obtain ⟨id, bound, rfl⟩ := Option.map_eq_some_iff.mp number
  rw [TypeHead.key, filled.head.kept id bound]
  rfl

/-! ## Units -/

/-- What binding made of a unit without handles and of the table: the unit with handles, the table
with entries, and the counts. -/
structure CompilationUnit.Registers (u : CompilationUnit) (t : BindingTable) (stats : Binding.Stats)
    (u' : CompilationUnit) (t' : BindingTable) : Prop where
  /-- Nothing but handles is filled in, and every declaration has one. -/
  filled : List.Forall₂ TypeDecl.FillsTo u.preorder u'.preorder
  labelled : u'.Labelled t'
  /-- The handles are new, and different declarations of one kind have different ones. -/
  distinctTypes : (u'.preorder.filterMap (·.head.key)).Nodup
  newTypes : ∀ d ∈ u'.preorder, ∀ id, d.head.binding = some id → t.types.size ≤ id.index
  fields : HandedOut VariableSlot.key (u'.preorder.flatMap (·.contents.fields)) t.vars.size
    stats.fields
  locals : HandedOut VariableSlot.key (u'.preorder.flatMap (·.contents.locals))
    (t.vars.size + stats.fields) stats.locals
  methods : HandedOut MethodHead.key (u'.preorder.flatMap (·.contents.methods)) t.methods.size
    stats.methods
  /-- The entries tell what the declarations say and where they stand. -/
  outermost : ∀ d ∈ u'.types, d.head.HasType t' u.package none
  entries : ∀ d ∈ u'.preorder, d.HasEntries t'
  localEntries : ∀ d ∈ u'.preorder, ∀ l ∈ d.contents.locals, HasLocal t' l
  /-- What was there is there as it was, and types stay in range. -/
  kept : t.Precedes t'
  inRange : t.InRange → t'.InRange
  /-- The table has no other new entries but those of interned classes. -/
  types : stats.types = u'.preorder.length
  typeSize : t.types.size + stats.types ≤ t'.types.size
  variableSize : t'.vars.size = t.vars.size + (stats.fields + stats.locals)
  methodSize : t'.methods.size = t.methods.size + stats.methods
  further : ∀ i, t.types.size ≤ i → i < t'.types.size →
    (∃ d ∈ u'.preorder, d.head.binding = some ⟨i⟩) ∨
      ∃ name superclass, t'.types[i]? = some { BindingTable.external name with superclass } ∧
        (name = Names.enumType ∨ ∃ d ∈ u'.preorder, ∃ c, d.head.superclass = some c ∧ c.name = name)

namespace CompilationUnit

variable {u : CompilationUnit} {t : BindingTable} {ds ds' : List TypeDecl} {s s' : Binding.State}

/-! ### Declaring -/

/-- Of a unit without handles, declaring makes one in which nothing but clauses and locals lacks a
handle, and gives every declaration that has one an entry. -/
structure Declares (u : CompilationUnit) (t : BindingTable) (ds : List TypeDecl)
    (s : Binding.State) : Prop where
  enters : Enters (.start t) s (.ofTypes u.preorder) (.ofTypes (ds.flatMap TypeDecl.preorder))
  filled : List.Forall₂ TypeDecl.FillsTo u.preorder (ds.flatMap TypeDecl.preorder)
  heads : ∀ d ∈ ds.flatMap TypeDecl.preorder, ∃ x ∈ u.preorder, ∃ id, d.head =
    { x.head with binding := some id }
  clauses : ∀ d ∈ ds.flatMap TypeDecl.preorder, ∀ c, d.head.superclass = some c → c.binding = none
  locals : ∀ l ∈ (ds.flatMap TypeDecl.preorder).flatMap (·.contents.locals), l.binding = none
  entries : ∀ t', s.table.Continues t' → (∀ d ∈ ds, d.head.HasType t' u.package none) ∧
    ∀ d ∈ ds.flatMap TypeDecl.preorder, d.HasEntries t'
  inRange : t.InRange → s.table.InRange

/-- Every top-level type is declared at some point, and the table only continues from there. -/
theorem declared_tops
    (run : Edit.list (declareTopLevel u.package) u.types (.start t) = (.done ds, s)) :
    ∀ d' ∈ ds, ∃ d ∈ u.types, ∃ s₁ s₂, declareTopLevel u.package d s₁ = (.done d', s₂) ∧
      s₂.table.Continues s.table := by
  intro d' hd'
  obtain ⟨-, tops⟩ :=
    Edit.exists_done_of_mem (R := fun s s' => s.table.Continues s'.table) (fun _ => .refl _)
    (fun _ _ _ => .trans) (fun _ _ _ _ run => (declareType_enters run).continues) run
  obtain ⟨d, hd, s₁, s₂, -, step, after⟩ := tops d' hd'
  exact ⟨d, hd, s₁, s₂, step, after⟩

theorem declares (free : u.Unlabelled)
    (run : Edit.list (declareTopLevel u.package) u.types (.start t) = (.done ds, s)) :
    u.Declares t ds s := by
  obtain ⟨enters, filled⟩ := declareTypes_enters run
  have freeInside : ∀ d ∈ u.types, ∀ x ∈ d.preorder, x.Unlabelled := fun d hd x hx =>
    free x (List.mem_flatMap.mpr ⟨d, hd, hx⟩)
  have kept : ∀ x' ∈ ds.flatMap TypeDecl.preorder, ∃ x ∈ u.preorder,
      (∃ id, x'.head = { x.head with binding := some id }) ∧
      x'.contents.locals ⊆ x.contents.locals := by
    intro x' hx'
    obtain ⟨d', hd', hx'⟩ := List.mem_flatMap.mp hx'
    obtain ⟨d, hd, s₁, s₂, run, -⟩ := declared_tops run d' hd'
    obtain ⟨x, hx, kept⟩ := declareType_kept run x' hx'
    exact ⟨x, List.mem_flatMap.mpr ⟨d, hd, hx⟩, kept⟩
  -- What one run has entered stands at the end of all runs.
  have entries : ∀ t', s.table.Continues t' → ∀ d' ∈ ds, d'.head.HasType t' u.package none ∧
      ∀ x ∈ d'.preorder, x.HasEntries t' := by
    intro t' later d' hd'
    obtain ⟨d, hd, s₁, s₂, run, after⟩ := declared_tops run d' hd'
    exact declareType_entries (freeInside d hd) run (after.trans later)
  refine ⟨enters, filled, fun x' hx' => ?_, fun x' hx' c written => ?_, fun l hl => ?_,
    fun t' later => ⟨fun d hd => ?_, fun x hx => ?_⟩, fun inRange => ?_⟩
  · obtain ⟨x, hx, head, -⟩ := kept x' hx'
    exact ⟨x, hx, head⟩
  · obtain ⟨x, hx, ⟨id, same⟩, -⟩ := kept x' hx'
    rw [same] at written
    exact (free x hx).head.clause c written
  · obtain ⟨x', hx', hl⟩ := List.mem_flatMap.mp hl
    obtain ⟨x, hx, -, locals⟩ := kept x' hx'
    exact (free x hx).contents.locals l (locals hl)
  · exact (entries t' later d hd).1
  · obtain ⟨d, hd, hx⟩ := List.mem_flatMap.mp hx
    exact (entries t' later d hd).2 x hx
  · exact (Edit.exists_done_of_mem (R := fun s s' => s.table.InRange → s'.table.InRange)
      (fun _ => id) (fun _ _ _ first second holds => second (first holds))
      (fun _ _ _ _ run holds => declareType_inRange (BindingTable.knows_none _) holds run) run).1
        inRange

namespace Declares

theorem typeCount (declared : u.Declares t ds s) (free : u.Unlabelled) :
    s.stats.types = u.preorder.length ∧ t.types.size + s.stats.types ≤ s.table.types.size := by
  have all :
      (u.preorder.map (·.head)).countP (·.binding.isNone) = (u.preorder.map (·.head)).length := by
    refine List.countP_eq_length.mpr fun h hh => ?_
    obtain ⟨d, hd, rfl⟩ := List.mem_map.mp hh
    rw [(free d hd).head.binding]
    rfl
  have count : s.stats.types = (u.preorder.map (·.head)).countP (·.binding.isNone) := by
    rw [declared.enters.counts]
    exact Nat.zero_add _
  refine ⟨?_, ?_⟩
  · rw [count, all, List.length_map]
  · rw [count]
    exact declared.enters.typeSize

/-- The fields are numbered from the first free number on. -/
theorem fields (declared : u.Declares t ds s) (free : u.Unlabelled) :
    HandedOut VariableSlot.key ((ds.flatMap TypeDecl.preorder).flatMap (·.contents.fields))
      t.vars.size
        s.stats.fields ∧ s.table.vars.size = t.vars.size + s.stats.fields := by
  have count :
      s.stats.fields = (u.preorder.flatMap (·.contents.fields)).countP (·.binding.isNone) := by
    rw [declared.enters.counts]
    exact Nat.zero_add _
  rw [count]
  refine ⟨declared.enters.fields.handedOut (fun f hf => ?_)
    (List.rel_flatMap declared.filled fun _ _ one => one.contents.fields).length_eq
      declared.enters.fieldSize,
    declared.enters.fieldSize⟩
  obtain ⟨d, hd, hf⟩ := List.mem_flatMap.mp hf
  exact VariableSlot.free ((free d hd).contents.fields f hf)

/-- The methods are numbered from the first free number on. -/
theorem methods (declared : u.Declares t ds s) (free : u.Unlabelled) :
    HandedOut MethodHead.key ((ds.flatMap TypeDecl.preorder).flatMap (·.contents.methods))
      t.methods.size
        s.stats.methods ∧ s.table.methods.size = t.methods.size + s.stats.methods := by
  have count :
      s.stats.methods = (u.preorder.flatMap (·.contents.methods)).countP (·.binding.isNone) := by
    rw [declared.enters.counts]
    exact Nat.zero_add _
  rw [count]
  refine ⟨declared.enters.methods.handedOut (fun h hh => ?_)
    (List.rel_flatMap declared.filled fun _ _ one => one.contents.methods).length_eq
      declared.enters.methodSize,
    declared.enters.methodSize⟩
  obtain ⟨d, hd, hh⟩ := List.mem_flatMap.mp hh
  exact MethodHead.free ((free d hd).contents.methods h hh)

/-- Types get different numbers from the first free number on. -/
theorem newHandles (declared : u.Declares t ds s) (free : u.Unlabelled) :
    ((ds.flatMap TypeDecl.preorder).filterMap (·.head.key)).Nodup ∧
      ∀ d ∈ ds.flatMap TypeDecl.preorder, ∃ id, d.head.binding = some id ∧
      t.types.size ≤ id.index := by
  have allocated : Allocated TypeHead.key (u.preorder.map (·.head))
      ((ds.flatMap TypeDecl.preorder).map (·.head)) t.types.size s.table.types.size :=
        declared.enters.heads
  obtain ⟨distinct, origin⟩ := allocated.of_free fun h hh => by
    obtain ⟨d, hd, rfl⟩ := List.mem_map.mp hh
    rw [TypeHead.key, (free d hd).head.binding]
    rfl
  rw [List.filterMap_map] at distinct
  refine ⟨distinct, fun d hd => ?_⟩
  obtain ⟨n, key, low, -⟩ := origin d.head (List.mem_map_of_mem hd)
  obtain ⟨id, bound, rfl⟩ := Option.map_eq_some_iff.mp key
  exact ⟨id, bound, low⟩

end Declares

/-! ### Resolving -/

theorem typeEntry_of_superclass? {t t' : BindingTable} (grown : t.Extends t') {i : Nat}
    {d : TypeDescriptor} (entry : t.types[i]? = some d)
    (same : t'.superclass? ⟨i⟩ = t.superclass? ⟨i⟩) : t'.types[i]? = some d := by
  obtain ⟨superclass, found⟩ := grown.oldTypes ⟨i⟩ d (BindingTable.typeAt_eq_ok.mpr entry)
  have entry' := BindingTable.typeAt_eq_ok.mp found
  unfold BindingTable.superclass? at same
  rw [entry, entry'] at same
  obtain rfl : superclass = d.superclass := same
  exact entry'

/-- Entries whose types no clause is about stay as they are. -/
theorem Declares.kept (declared : u.Declares t ds s) (free : u.Unlabelled)
    (filled : List.Forall₂ TypeDecl.FillsTo (ds.flatMap TypeDecl.preorder)
    (ds'.flatMap TypeDecl.preorder)) {ls ls' : List VariableSlot} {hs : List TypeHead}
    (steps : Steps s s' ls ls' hs ((ds'.flatMap TypeDecl.preorder).map (·.head))) :
    t.Precedes s'.table := by
  have grown := declared.enters.grown.trans steps.table.grown
  obtain ⟨added, all, -⟩ := grown.addedVariables
  refine ⟨?_, ⟨added, all.symm⟩, by rw [steps.methods]; exact declared.enters.kept.methods⟩
  -- The clauses are about new types.
  have others : ∀ i, i < t.types.size →
      lastClause ((ds'.flatMap TypeDecl.preorder).map (·.head)) ⟨i⟩ = none := by
    intro i below
    refine lastClause_eq_none fun h hh handle => ?_
    obtain ⟨d', hd', rfl⟩ := List.mem_map.mp hh
    obtain ⟨d, hd, one⟩ := exists_mem_left filled hd'
    obtain ⟨id, bound, new⟩ := (declared.newHandles free).2 d hd
    rw [one.head.kept id bound] at handle
    obtain rfl : id = ⟨i⟩ := Option.some.inj handle
    exact absurd below (Nat.not_lt_of_le new)
  refine List.prefix_iff_getElem?.mpr fun i below => ?_
  replace below : i < t.types.size := below
  have entry : s.table.types[i]? = some t.types[i] :=
    getElem?_of_prefix declared.enters.kept.types (Array.getElem?_eq_getElem below)
  rw [Array.getElem?_toList]
  exact typeEntry_of_superclass? steps.table.grown entry
    (steps.clauses.others ⟨i⟩ (others i below) (Array.getElem?_eq_some_iff.mp entry).1)

/-- Every new type is declared by the unit or is an interned class. -/
theorem Declares.further (declared : u.Declares t ds s)
    (filled : List.Forall₂ TypeDecl.FillsTo (ds.flatMap TypeDecl.preorder)
    (ds'.flatMap TypeDecl.preorder)) {ls ls' : List VariableSlot} {hs : List TypeHead}
    (steps : Steps s s' ls ls' ((ds.flatMap TypeDecl.preorder).map (·.head)) hs) {i : Nat}
    (low : t.types.size ≤ i) (high : i < s'.table.types.size) :
    (∃ d ∈ ds'.flatMap TypeDecl.preorder, d.head.binding = some ⟨i⟩) ∨
      ∃ name superclass, s'.table.types[i]? = some { BindingTable.external name with superclass } ∧
        (name = Names.enumType ∨ ∃ d ∈ ds'.flatMap TypeDecl.preorder, ∃ c,
          d.head.superclass = some c ∧
          c.name = name) := by
  -- A type that is there after declaring was entered for a declaration or is the superclass of
  -- enums; a later one was interned for a clause.
  by_cases early : i < s.table.types.size
  · rcases declared.enters.others i low early with ⟨h, hh, bound⟩ | ⟨superclass, entry⟩
    · obtain ⟨d, hd, rfl⟩ := List.mem_map.mp hh
      obtain ⟨d', hd', one⟩ := exists_mem_right filled hd
      exact .inl ⟨d', hd', one.head.kept _ bound⟩
    · obtain ⟨superclass', found⟩ :=
        steps.table.grown.oldTypes ⟨i⟩ _ (BindingTable.typeAt_eq_ok.mpr entry)
      exact .inr ⟨_, superclass', BindingTable.typeAt_eq_ok.mp found, .inl rfl⟩
  · obtain ⟨h, hh, c, written, -, superclass, entry⟩ := steps.types i (Nat.le_of_not_lt early) high
    obtain ⟨d, hd, rfl⟩ := List.mem_map.mp hh
    obtain ⟨d', hd', one⟩ := exists_mem_right filled hd
    have name := one.head.clauseName
    rw [written] at name
    obtain ⟨c', written', same⟩ := Option.map_eq_some_iff.mp name
    exact .inr ⟨_, superclass, entry, .inr ⟨d', hd', c', written', same⟩⟩

/-- Binding a unit without handles registers what it declares. -/
theorem bind_registers {stats : Binding.Stats} (free : u.Unlabelled)
    (success : (u.bind t).result = .ok stats) :
    u.Registers t stats (u.bind t).unit (u.bind t).table := by
  obtain ⟨ds, s, s', declaring, resolving, table, rfl⟩ := bind_steps success
  obtain ⟨tops, filled, steps⟩ := resolveTypes_filled resolving
  have declared := declares free declaring
  have later : s.table.Continues s'.table := ⟨steps.table.grown, steps.methods ▸ List.prefix_rfl⟩
  obtain ⟨outermost, entries⟩ := declared.entries s'.table later
  obtain ⟨distinct, new⟩ := declared.newHandles free
  obtain ⟨typeCount, typeSize⟩ := declared.typeCount free
  obtain ⟨fields, fieldSize⟩ := declared.fields free
  obtain ⟨methods, methodSize⟩ := declared.methods free
  obtain ⟨types, sameFields, sameMethods, locals⟩ := steps.stats
  have labelled := (bind_labelled success).1
  -- Declaring counts no locals, so that all that are counted at the end were counted while
  -- resolving.
  have noLocals : s.stats.locals = 0 := by rw [declared.enters.counts]; rfl
  rw [noLocals, Nat.zero_add] at locals
  have resolvedLocals :=
    steps.locals.handedOut (fun l hl => VariableSlot.free (declared.locals l hl))
    (List.rel_flatMap filled fun _ _ one => one.contents.locals).length_eq steps.size
  have localSize := steps.size
  rw [table] at labelled ⊢
  rw [← locals] at resolvedLocals localSize
  rw [fieldSize, ← sameFields] at resolvedLocals localSize
  -- What declaring has handed out and entered is kept by resolving, for types, fields and methods;
  -- the locals come from resolving alone.
  exact {
    filled := forall₂_trans TypeDecl.FillsTo.trans declared.filled filled
    labelled
    distinctTypes := by
      have same := filterMap_key_of_forall₂ TypeDecl.FillsTo.key filled fun d hd => by
        obtain ⟨id, bound, -⟩ := new d hd
        exact ⟨_, TypeHead.key_of_binding bound⟩
      exact same ▸ distinct
    newTypes := fun d' hd' id bound => by
      obtain ⟨d, hd, one⟩ := exists_mem_left filled hd'
      obtain ⟨id', bound', low⟩ := new d hd
      rw [one.head.kept id' bound'] at bound
      cases bound
      exact low
    fields := by
      rw [sameFields]
      exact fields.of_forall₂ VariableSlot.FillsTo.key (List.rel_flatMap filled fun _ _ one =>
        one.contents.fields)
    locals := resolvedLocals
    methods := by
      rw [sameMethods]
      exact methods.of_forall₂ MethodHead.FillsTo.key (List.rel_flatMap filled fun _ _ one =>
        one.contents.methods)
    outermost := fun d' hd' => by
      obtain ⟨d, hd, one⟩ := exists_mem_left tops hd'
      exact (outermost d hd).of_fills one
    entries := fun d' hd' => by
      obtain ⟨d, hd, one⟩ := exists_mem_left filled hd'
      exact (entries d hd).of_fills one
    localEntries := fun d hd l hl => by
      obtain ⟨v, bound⟩ := (labelled.types d hd).contents.locals l hl
      refine (steps.entries l (List.mem_flatMap.mpr ⟨d, hd, hl⟩)).resolve_left fun old => ?_
      rw [declared.locals l old] at bound
      cases bound
    kept := declared.kept free filled steps
    inRange :=
      fun inRange => resolveTypes_inRange declared.clauses (declared.inRange inRange) resolving
    types := by
      rw [types, typeCount]
      exact (forall₂_trans TypeDecl.FillsTo.trans declared.filled filled).length_eq
    typeSize := by
      rw [types]
      exact Nat.le_trans typeSize steps.table.grown.moreTypes
    variableSize := by rw [localSize, Nat.add_assoc]
    methodSize := by rw [steps.methods, methodSize, sameMethods]
    further := fun i low high => declared.further filled steps low high }

/-- `package p; class A extends B { int x, y = 1; class N { void m(int q) { class L { } } } static {
{ int z; } } } enum E { ; E() { try { } catch (Exception e) { } } }`. -/
def nestedUnit : CompilationUnit :=
  let n : NodeInfo := ⟨.unassigned, .dummy⟩
  let head (kind : TypeKind) (name : String) (superclass : Option TypeName) : TypeHead :=
    ⟨.unassigned, .dummy, kind, name, .empty, superclass, none, []⟩
  let method (name : String) (parameters : List Parameter) (isConstructor : Bool) : MethodHead :=
    ⟨.unassigned, .dummy, name, .empty, .void, parameters, isConstructor, none, false⟩
  let fragment (name : String) (initializer : Option Expr) : Fragment :=
    ⟨.dummy, name, initializer, none⟩
  let one : Expr := .literal ⟨.unassigned, .dummy, none⟩ (.int 1)
  ⟨"A.java", some "p",
    [⟨head .classType "A" (some ⟨"B", none⟩),
      [.field ⟨.unassigned, .dummy, .empty, .primitive .int, [fragment "x" none, fragment "y" one]⟩,
        .type ⟨head .classType "N" none,
          [.method ⟨method "m" [⟨"q", .primitive .int, none⟩] false,
            some ⟨n, [.localType n ⟨head .classType "L" none, []⟩]⟩⟩]⟩,
        .initializer ⟨n, true, ⟨n,
          [.block n ⟨n, [.localVariable n .empty (.primitive .int) [fragment "z" none]]⟩]⟩⟩]⟩,
      ⟨head .enumType "E" none,
        [.method ⟨method "E" [] true,
          some ⟨n, [.tryCatch n ⟨n, []⟩
            [⟨.dummy, ⟨"e", .declared ⟨"Exception", none⟩, none⟩, ⟨n, []⟩⟩] none]⟩⟩]⟩],
    .initial⟩

/-- The unit declares four types, two fields, two methods and three locals. -/
theorem bind_registers_sample :
    nestedUnit.Unlabelled ∧ BindingTable.new.InRange ∧
      (nestedUnit.bind .new).result = .ok ⟨4, 2, 2, 3, 0⟩ ∧
      nestedUnit.Registers .new ⟨4, 2, 2, 3, 0⟩ (nestedUnit.bind .new).unit
        (nestedUnit.bind .new).table := by
  have free : nestedUnit.Unlabelled := by decide +kernel
  have success : (nestedUnit.bind .new).result = .ok ⟨4, 2, 2, 3, 0⟩ := by decide +kernel
  exact ⟨free, BindingTable.inRange_new, success, bind_registers free success⟩

end CompilationUnit

end ClassInit
