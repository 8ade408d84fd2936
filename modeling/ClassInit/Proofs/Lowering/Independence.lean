import ClassInit.Proofs.Lowering.Alike
import ClassInit.Proofs.Lowering.Statistics
import Mathlib.Data.List.Flatten
import Mathlib.Data.List.Perm.Basic

/-!
# Types are lowered independently

Lowering one type does the same whatever else has been lowered before: two runs of it differ in node
ids and in the handles of the methods that they add (`Comparison.lowerType_alike`). A run over a
unit therefore comes apart into pieces, one for each top-level type, and these can be put together
again one by one or in another order (`CompilationUnit.lower_independent`).
-/

set_option autoImplicit false

namespace ClassInit

namespace Lowering

namespace Comparison

variable {c : Comparison} {options : Options}

/-! ## Nested types -/

section

variable {nested : TypeDecl → Edit State Failure TypeDecl}

mutual

theorem editLocalTypes_alike
    (alike : ∀ d, c.Edits (TypeDecl.erase c.mask) (nested d) (nested d)) : ∀ s : Stmt,
    c.Edits (Stmt.erase c.mask) (Stmt.editLocalTypes nested s) (Stmt.editLocalTypes nested s)
  | .localType i d => .map (alike d) fun _ _ same => by simp only [Stmt.erase, same]
  | .block i ⟨b, ss⟩ => .map (editLocalTypesOf_alike alike ss) fun _ _ same => by
    simp only [Stmt.erase, Block.erase, same]
  | .ifElse i e t none => .map (editLocalTypes_alike alike t) fun _ _ same => by
    simp only [Stmt.erase, same]
  | .ifElse i e t (some f) => .andThen (editLocalTypes_alike alike t) fun _ _ same =>
    .map (editLocalTypes_alike alike f) fun _ _ same' => by simp only [Stmt.erase, same, same']
  | .whileLoop i e b => .map (editLocalTypes_alike alike b) fun _ _ same => by
    simp only [Stmt.erase, same]
  | .forLoop i init e us b => .andThen (editLocalTypesOf_alike alike init) fun _ _ same =>
    .map (editLocalTypes_alike alike b) fun _ _ same' => by simp only [Stmt.erase, same, same']
  | .tryCatch i ⟨b, ss⟩ cs none => .andThen (editLocalTypesOf_alike alike ss) fun _ _ same =>
    .map (editLocalTypesOfCatches_alike alike cs) fun _ _ same' => by
      simp only [Stmt.erase, Block.erase, same, same']
  | .tryCatch i ⟨b, ss⟩ cs (some ⟨fb, fs⟩) =>
    .andThen (editLocalTypesOf_alike alike ss) fun _ _ same =>
      .andThen (editLocalTypesOfCatches_alike alike cs) fun _ _ same' =>
        .map (editLocalTypesOf_alike alike fs) fun _ _ same'' => by
          simp only [Stmt.erase, Block.erase, same, same', same'']
  | .expression i e => .keep rfl
  | .localVariable i m t fs => .keep rfl
  | .returnValue i e => .keep rfl
  | .throwValue i e => .keep rfl
  | .superCall i as b => .keep rfl
  | .thisCall i as b => .keep rfl
  | .empty i => .keep rfl

theorem editLocalTypesOf_alike
    (alike : ∀ d, c.Edits (TypeDecl.erase c.mask) (nested d) (nested d)) :
    ∀ ss : List Stmt, c.Edits (Stmt.eraseAll c.mask) (Stmt.editLocalTypesOf nested ss)
      (Stmt.editLocalTypesOf nested ss)
  | [] => .keep rfl
  | s :: ss => .andThen (editLocalTypes_alike alike s) fun _ _ same =>
    .map (editLocalTypesOf_alike alike ss) fun _ _ same' => by
      simp only [Stmt.eraseAll, same, same']

theorem editLocalTypesOfCatches_alike
    (alike : ∀ d, c.Edits (TypeDecl.erase c.mask) (nested d) (nested d)) : ∀ cs : List CatchClause,
    c.Edits (CatchClause.eraseAll c.mask) (CatchClause.editLocalTypesOf nested cs)
      (CatchClause.editLocalTypesOf nested cs)
  | [] => .keep rfl
  | ⟨sp, x, ⟨b, ss⟩⟩ :: cs => .andThen (editLocalTypesOf_alike alike ss) fun _ _ same =>
    .map (editLocalTypesOfCatches_alike alike cs) fun _ _ same' => by
      simp only [CatchClause.eraseAll, Block.erase, same, same']

end

variable (alike : ∀ d, c.Edits (TypeDecl.erase c.mask) (nested d) (nested d))

include alike

theorem editBody_alike (m : Member) :
    c.Edits (Member.erase c.mask) (Member.editLocalTypes nested m)
      (Member.editLocalTypes nested m) := by
  rcases m with d | ⟨head, _ | ⟨i, ss⟩⟩ | ⟨i, s, ⟨b, ss⟩⟩ | f
  · exact .keep rfl
  · exact .keep rfl
  · refine .map (editLocalTypesOf_alike alike ss) fun ss ss' same => ?_
    simp only [Member.erase, Block.erase, same]
  · refine .map (editLocalTypesOf_alike alike ss) fun ss ss' same => ?_
    simp only [Member.erase, Block.erase, same]
  · exact .keep rfl

/-- A member as far as lowering its type leaves it alone. -/
def apartFromType : Member → Option Member
  | .type _ => none
  | m => some m

theorem lowerMemberType_alike (m : Member) :
    c.Edits (fun m => (m.erase c.mask, apartFromType m)) (lowerMemberType nested m)
      (lowerMemberType nested m) := by
  rcases m with d | m | i | f
  · refine .map (alike d) fun d d' same => Prod.ext ?_ rfl
    simp only [Member.erase_type, same]
  · exact .keep rfl
  · exact .keep rfl
  · exact .keep rfl

theorem lowerNested_alike (d : TypeDecl) :
    c.Edits (TypeDecl.erase c.mask) (lowerNested nested d) (lowerNested nested d) := by
  unfold lowerNested
  rw [Edit.seq, Edit.andThen_map]
  refine .andThen (.list_self fun m _ => lowerMemberType_alike alike m) fun ms ms' same => ?_
  refine .map (.list ((forall₂_of_map_eq same).imp fun m m' same => ?_)) fun ms ms' all =>
    TypeDecl.erase_eq_iff.mpr ⟨rfl, all⟩
  -- The bodies are those of one and the same member; only its type may have been lowered in two
  -- ways.
  obtain ⟨erased, apart⟩ := Prod.ext_iff.mp same
  rcases m with d | m | i | f <;> rcases m' with d' | m' | i' | f' <;> cases apart
  · exact .keep erased
  · exact editBody_alike alike _
  · exact editBody_alike alike _
  · exact editBody_alike alike _

end

/-! ## Types -/

theorem identify_alike (d : TypeDecl) :
    c.Steps (fun x : TypeId × Bool => x) (identify d) (identify d) := by
  unfold identify
  cases d.head.binding with
  | none => exact .throw
  | some type =>
    refine .bind (.ask (fun t grown => ?_) fun t grown => ?_) fun isInterface _ same => ?_
    · rw [BindingTable.isInterface, grown.typeAt, BindingTable.isInterface]
    · rw [BindingTable.isInterface, grown.typeAt, BindingTable.isInterface]
    · subst same
      exact .pure rfl

theorem countType_alike {d d' : TypeDecl} (same : d.erase c.mask = d'.erase c.mask) :
    c.Edits (TypeDecl.erase c.mask) (countType d) (countType d') :=
  .ofState (fun _ => rfl) (fun _ => rfl) fun _ _ => same

/-- Lowering a type does the same wherever it stands in a run. -/
theorem lowerType_alike (levels : Nat) (d : TypeDecl) :
    c.Edits (TypeDecl.erase c.mask) (lowerType options levels d) (lowerType options levels d) := by
  induction levels generalizing d with
  | zero => exact .stop
  | succ levels ih =>
    refine Runs.congr (.comp (identify_alike d) fun x _ same => ?_) (fun _ _ _ => lowerType_eq_done)
      fun _ _ _ => lowerType_eq_done
    subst same
    refine Edits.seq (v := TypeDecl.erase c.mask) ?_ fun d d' same => countType_alike same
    exact .seq (lowerNested_alike ih d) fun d d' same => lowerOwn_alike x.2 same

end Comparison

/-! ## Units -/

/-- What lowering made of a top-level type: the type, its result, and the entries that were
added. -/
structure Piece where
  source : TypeDecl
  result : TypeDecl
  added : List MethodBinding

/-- Some run within the bounds of the comparison made the piece. -/
def Piece.Made (c : Comparison) (options : Options) (p : Piece) : Prop :=
  ∃ s s', c.table.Grows s.table ∧ s'.table.methods.size ≤ c.high ∧
    lowerTopLevel options p.source s = (.done p.result, s') ∧
    s'.table.methods.toList = s.table.methods.toList ++ p.added

variable {c : Comparison} {options : Options}

/-- A run over a list of types comes apart into pieces. -/
theorem exists_pieces {ds ds' : List TypeDecl} {s s' : State} (grown : c.table.Grows s.table)
    (run : Edit.list (lowerTopLevel options) ds s = (.done ds', s'))
    (below : s'.table.methods.size ≤ c.high) :
    ∃ pieces : List Piece, (∀ p ∈ pieces, p.Made c options) ∧ pieces.map Piece.source = ds ∧
      pieces.map Piece.result = ds' ∧
      s'.table.methods.toList = s.table.methods.toList ++ pieces.flatMap Piece.added := by
  induction ds generalizing ds' s with
  | nil =>
    obtain ⟨rfl, rfl⟩ := Edit.list_nil_eq_done.mp run
    exact ⟨[], by simp⟩
  | cons d ds ih =>
    obtain ⟨d', s₁, ds', one, rest, rfl⟩ := Edit.list_cons_eq_done.mp run
    have moves := lowerType_moves options (Limits.typeNesting + 1)
    have first : s.table.Grows s₁.table := (moves d).run one
    have moved : (Edit.list (lowerTopLevel options) ds).Moves State.Grows :=
      .list State.Grows.refl State.Grows.trans fun d _ => moves d
    have later : s₁.table.Grows s'.table := moved.run rest
    obtain ⟨pieces, made, sources, results, all⟩ := ih (grown.trans first) rest
    obtain ⟨added, added_eq, -⟩ := first.addedMethods
    refine ⟨⟨d, d', added⟩ :: pieces, ?_, ?_, ?_, ?_⟩
    · intro p hp
      rcases List.mem_cons.mp hp with rfl | hp
      · exact ⟨s, s₁, grown, Nat.le_trans later.size_le below, one, added_eq⟩
      · exact made p hp
    · rw [List.map_cons, sources]
    · rw [List.map_cons, results]
    · rw [all, added_eq, List.flatMap_cons, List.append_assoc]

/-- Pieces can be put together to a run, if there is room for their entries. -/
theorem run_of_pieces {pieces : List Piece} (made : ∀ p ∈ pieces, p.Made c options) {s : State}
    (grown : c.table.Grows s.table)
    (room : s.table.methods.size + (pieces.flatMap Piece.added).length ≤ c.high) :
    ∃ ds' s', Edit.list (lowerTopLevel options) (pieces.map Piece.source) s = (.done ds', s') ∧
      ds'.map (TypeDecl.erase c.mask) = pieces.map (fun p => p.result.erase c.mask) ∧
      s'.table.methods.toList = s.table.methods.toList ++ pieces.flatMap Piece.added := by
  induction pieces generalizing s with
  | nil => exact ⟨[], s, rfl, rfl, (List.append_nil _).symm⟩
  | cons p pieces ih =>
    obtain ⟨s₁, s₂, grown₁, below, once, added⟩ := made p List.mem_cons_self
    rw [List.flatMap_cons, List.length_append] at room
    have size := size_of_append added
    obtain ⟨d', s', again, same, grows, added', all, all'⟩ :=
      (Comparison.lowerType_alike (Limits.typeNesting + 1) p.source).follows grown₁ grown once below
        (by omega)
    obtain rfl : p.added = added' := List.append_cancel_left (added.symm.trans all)
    have size' := size_of_append all'
    obtain ⟨ds', s₃, rest, results, more⟩ := ih (fun q hq => made q (List.mem_cons_of_mem _ hq))
      (grown.trans grows) (by omega)
    refine ⟨d' :: ds', s₃, Edit.list_cons_eq_done.mpr ⟨d', s', ds', again, rest, rfl⟩, ?_, ?_⟩
    · rw [List.map_cons, List.map_cons, results, same]
    · rw [more, all', List.flatMap_cons, List.append_assoc]

end Lowering

/-- The mask that takes the handles of all methods that the second table has and the first has not
for one. -/
def BindingTable.mergeNew (t t' : BindingTable) : Option MethodId → Option MethodId
  | none => none
  | some m =>
    if t.methods.size ≤ m.index ∧ m.index < t'.methods.size then some ⟨t.methods.size⟩ else some m

/-- Runs from the first table that make no more methods than the second table has. -/
def Lowering.Comparison.within (t t' : BindingTable) : Comparison where
  table := t
  high := t'.methods.size
  mask := t.mergeNew t'
  merges j k low high low' high' := by
    have merged : ∀ i, t.methods.size ≤ i → i < t'.methods.size →
        t.mergeNew t' (some ⟨i⟩) = some ⟨t.methods.size⟩ := fun i low high => if_pos ⟨low, high⟩
    rw [merged j low high, merged k low' high']

namespace CompilationUnit

open Lowering

variable {u : CompilationUnit} {t t' : BindingTable} {options : Options} {stats : Stats}

/-- A run that succeeds comes apart into pieces. -/
theorem lower_pieces (success : (u.lower t options).result = .ok stats) :
    ∃ pieces : List Piece, (∀ p ∈ pieces, p.Made (.within t (u.lower t options).table) options) ∧
      pieces.map Piece.source = u.types ∧ pieces.map Piece.result = (u.lower t options).unit.types ∧
      (u.lower t options).table.methods.toList =
        t.methods.toList ++ pieces.flatMap Piece.added :=
  exists_pieces (BindingTable.Grows.refl t) (lower_run success) (Nat.le_refl _)

/-- A unit whose types are the sources of pieces is lowered to their results. -/
theorem lower_of_pieces {pieces : List Piece} (made : ∀ p ∈ pieces, p.Made (.within t t') options)
    (sources : pieces.map Piece.source = u.types)
    (room : t.methods.size + (pieces.flatMap Piece.added).length ≤ t'.methods.size) :
    (∃ stats, (u.lower t options).result = .ok stats) ∧
      (∃ ds supply, (u.lower t options).unit = { u with types := ds, supply } ∧
        ds.map (TypeDecl.erase (t.mergeNew t')) =
          pieces.map fun p => p.result.erase (t.mergeNew t')) ∧
      (u.lower t options).table.methods.toList =
        t.methods.toList ++ pieces.flatMap Piece.added := by
  obtain ⟨ds', s', run, results, added⟩ :=
    run_of_pieces made (s := ⟨t, u.supply, .zero⟩) (BindingTable.Grows.refl t) room
  rw [sources] at run
  rw [lower, run]
  exact ⟨⟨_, rfl⟩, ⟨ds', s'.supply, rfl, results⟩, added⟩

/-- The counts of a run are the sum of what its top-level types count. -/
theorem lower_stats_types (success : (u.lower t options).result = .ok stats) :
    stats = (u.types.map fun d => (d.declarations.map (TypeDecl.counts options t)).sum).sum := by
  rw [lower_stats success, declarations, List.map_flatMap, List.flatMap, List.sum_flatten,
    List.map_map]
  rfl

/-- The pieces of a run make up a run each by itself. -/
theorem lower_alone {pieces : List Piece} (made : ∀ p ∈ pieces, p.Made (.within t t') options)
    (room : t.methods.size + (pieces.flatMap Piece.added).length = t'.methods.size) {p : Piece}
    (hp : p ∈ pieces) :
    (∃ part, ({ u with types := [p.source] }.lower t options).result = .ok part) ∧
      ∃ d₁, ({ u with types := [p.source] }.lower t options).unit.types = [d₁] ∧
        d₁.erase (t.mergeNew t') = p.result.erase (t.mergeNew t') := by
  have fewer := ((List.singleton_sublist.mpr hp).flatMap Piece.added).length_le
  have one : ∀ q ∈ [p], q.Made (.within t t') options := by
    intro q hq
    rw [List.mem_singleton.mp hq]
    exact made p hp
  have alone := lower_of_pieces (u := { u with types := [p.source] }) one rfl (by omega)
  obtain ⟨success, ⟨ds, supply, unit, results⟩, -⟩ := alone
  refine ⟨success, ?_⟩
  rw [unit]
  obtain ⟨d₁, rfl, same⟩ := List.map_eq_singleton_iff.mp results
  exact ⟨d₁, rfl, same⟩

/-- The counts of the runs over single types add up to the counts of the run over all. -/
theorem lower_parts (success : (u.lower t options).result = .ok stats)
    (alone : ∀ d ∈ u.types, ∃ part, ({ u with types := [d] }.lower t options).result = .ok part) :
    ∃ parts, List.Forall₂ (fun d part =>
      ({ u with types := [d] }.lower t options).result = .ok part) u.types parts ∧
        stats = parts.sum := by
  refine ⟨_, ?_, lower_stats_types success⟩
  rw [List.forall₂_map_right_iff, List.forall₂_same]
  intro d hd
  obtain ⟨part, one⟩ := alone d hd
  have counts := lower_stats_types one
  rw [List.map_singleton, List.sum_singleton] at counts
  rw [one, counts]

/-- The same types in another order are lowered to the same, in that order. -/
theorem lower_permuted {pieces : List Piece} (success : (u.lower t options).result = .ok stats)
    (made : ∀ p ∈ pieces, p.Made (.within t t') options)
    (sources : pieces.map Piece.source = u.types)
    (room : t.methods.size + (pieces.flatMap Piece.added).length = t'.methods.size)
    {ts : List TypeDecl} (perm : ts.Perm u.types) :
    ∃ (moved : List Piece) (ds : List TypeDecl) (supply : IdSupply), moved.Perm pieces ∧
      moved.map Piece.source = ts ∧ ({ u with types := ts }.lower t options).result = .ok stats ∧
      ({ u with types := ts }.lower t options).unit = { u with types := ds, supply } ∧
      ds.map (TypeDecl.erase (t.mergeNew t')) =
        moved.map (fun p => p.result.erase (t.mergeNew t')) ∧
      ({ u with types := ts }.lower t options).table.methods.toList =
        t.methods.toList ++ moved.flatMap Piece.added := by
  have sorted : Relation.Comp (· = List.map Piece.source ·) List.Perm ts pieces := by
    rw [List.eq_map_comp_perm]
    show ts.Perm (pieces.map Piece.source)
    rw [sources]
    exact perm
  obtain ⟨moved, rfl, moves⟩ := sorted
  have entries := (moves.flatMap_right Piece.added).length_eq
  have again := lower_of_pieces (u := { u with types := moved.map Piece.source })
    (fun p hp => made p (moves.mem_iff.mp hp)) rfl (by omega)
  obtain ⟨⟨stats', success'⟩, ⟨ds, supply, unit, results⟩, added⟩ := again
  have counts : stats' = stats := by
    rw [lower_stats_types success', lower_stats_types success, ← sources]
    exact ((moves.map Piece.source).map _).sum_eq
  rw [counts] at success'
  exact ⟨moved, ds, supply, moves, rfl, success', unit, results, added⟩

/-- The top-level types of a unit are lowered independently of each other, up to node ids and to the
handles of the methods that the run adds. Each of them is lowered alone to what it is lowered to in
the run; the counts of the run are the sum of the counts of these runs; and if the types are put in
another order, the results follow them, while the counts, the types and the variables of the table
stay, and the new methods only change their order. -/
theorem lower_independent (success : (u.lower t options).result = .ok stats) :
    let merge := t.mergeNew (u.lower t options).table
    List.Forall₂ (fun d d' => ∃ d₁, ({ u with types := [d] }.lower t options).unit.types = [d₁] ∧
        d₁.erase merge = d'.erase merge) u.types (u.lower t options).unit.types ∧
      (∃ parts, List.Forall₂ (fun d part =>
        ({ u with types := [d] }.lower t options).result = .ok part) u.types parts ∧
          stats = parts.sum) ∧
      ∀ ts : List TypeDecl, ts.Perm u.types →
        ∃ (pairs : List (TypeDecl × TypeDecl)) (ds : List TypeDecl) (supply : IdSupply),
          pairs.Perm (u.types.zip (u.lower t options).unit.types) ∧ pairs.map Prod.fst = ts ∧
          ({ u with types := ts }.lower t options).result = .ok stats ∧
          ({ u with types := ts }.lower t options).unit = { u with types := ds, supply } ∧
          ds.map (TypeDecl.erase merge) = pairs.map (fun p => p.2.erase merge) ∧
          t.Grows ({ u with types := ts }.lower t options).table ∧
          ({ u with types := ts }.lower t options).table.methods.toList.Perm
            (u.lower t options).table.methods.toList := by
  intro merge
  -- A piece is what the run does to one type; all three parts are about the pieces, alone or in
  -- another order.
  obtain ⟨pieces, made, sources, results, added⟩ := lower_pieces success
  have room := (size_of_append added).symm
  refine ⟨?_, ?_, ?_⟩
  · rw [← sources, ← results, List.forall₂_map_left_iff, List.forall₂_map_right_iff,
      List.forall₂_same]
    intro p hp
    exact (lower_alone made room hp).2
  · refine lower_parts success ?_
    rw [← sources, List.forall_mem_map]
    intro p hp
    exact (lower_alone made room hp).1
  · intro ts perm
    obtain ⟨moved, ds, supply, moves, rfl, success', unit, results', added'⟩ :=
      lower_permuted success made sources room perm
    refine ⟨moved.map fun p => (p.source, p.result), ds, supply, ?_, ?_, success', unit, ?_, ?_, ?_⟩
    · rw [← sources, ← results, List.zip_map']
      exact moves.map _
    · rw [List.map_map]
      rfl
    · rw [results', List.map_map]
      rfl
    · exact lower_grows _ _ _
    · rw [added', added]
      exact (moves.flatMap_right _).append_left _

end CompilationUnit

namespace Lowering

/-- `class name { int x = value; }`. -/
def simpleClass (name : String) (value : Int32) (type : TypeId) (field : VariableId) : TypeDecl :=
  ⟨⟨.unassigned, .dummy, .classType, name, .empty, none, some type, []⟩,
    [.field ⟨.unassigned, .dummy, .empty, .primitive .int,
      [⟨.dummy, "x", some (.literal ⟨.unassigned, .dummy, none⟩ (.int value)), some field⟩]⟩]⟩

/-- `class A { int x = 1; } class B { int x = 2; }`. -/
def pairUnit : CompilationUnit :=
  ⟨"A.java", none, [simpleClass "A" 1 ⟨2⟩ ⟨0⟩, simpleClass "B" 2 ⟨3⟩ ⟨1⟩], .initial⟩

/-- A table that knows both classes and their fields. -/
def pairTable : BindingTable :=
  ⟨#[BindingTable.external Names.objectType, BindingTable.external Names.stringType,
      ⟨"A", .classType, .empty, some ⟨0⟩, none⟩, ⟨"B", .classType, .empty, some ⟨0⟩, none⟩],
    #[⟨"x", .primitive .int, .empty, some ⟨2⟩, true, none⟩,
      ⟨"x", .primitive .int, .empty, some ⟨3⟩, true, none⟩],
    #[], _, rfl⟩

end Lowering

/-- The constructor of the second class has another handle if the class is lowered alone, and that
is all; the classes can be lowered in the other order. -/
theorem CompilationUnit.lower_independent_pair :
    let run := Lowering.pairUnit.lower Lowering.pairTable .standard
    let b := Lowering.simpleClass "B" 2 ⟨3⟩ ⟨1⟩
    let alone := { Lowering.pairUnit with types := [b] }.lower Lowering.pairTable .standard
    let swapped := { Lowering.pairUnit with types := Lowering.pairUnit.types.reverse }.lower
      Lowering.pairTable .standard
    run.result = .ok ⟨2, 2, 0, 0, 0, 0, 0, 0, 2, 0⟩ ∧ swapped.result = run.result ∧
      (alone.unit.types.flatMap TypeDecl.methods).map (·.head.binding) = [some ⟨1⟩] ∧
      (run.unit.types.flatMap TypeDecl.methods).map (·.head.binding) = [some ⟨1⟩, some ⟨3⟩] ∧
      ∃ a' b' b₁, run.unit.types = [a', b'] ∧ alone.unit.types = [b₁] ∧
        b₁.erase (Lowering.pairTable.mergeNew run.table) =
          b'.erase (Lowering.pairTable.mergeNew run.table) := by
  intro run b alone swapped
  have success : run.result = .ok ⟨2, 2, 0, 0, 0, 0, 0, 0, 2, 0⟩ := by decide +kernel
  obtain ⟨each, -, reordered⟩ := CompilationUnit.lower_independent success
  obtain ⟨-, -, -, -, -, again, -⟩ := reordered _ (List.reverse_perm _)
  refine ⟨success, again.trans success.symm, by decide +kernel, by decide +kernel, ?_⟩
  generalize results : run.unit.types = ds at each
  obtain _ | ⟨-, _ | ⟨⟨b₁, types, same⟩, ⟨⟩⟩⟩ := each
  exact ⟨_, _, b₁, rfl, types, same⟩

end ClassInit
