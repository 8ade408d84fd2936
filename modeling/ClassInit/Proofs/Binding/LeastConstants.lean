import ClassInit.Proofs.Binding.Failures
import ClassInit.Proofs.Binding.Rearranging

/-!
# The least assignment of constants

Recording the constants of a unit ends with the least assignment under which every candidate has
exactly the value that its initializer has under it (`CompilationUnit.bindConstants_least`). Every
round but the last finds a value, so that as many rounds as there are candidates suffice; and what
is found belongs to every such assignment, so that the order of the declarations does not matter.
-/

set_option autoImplicit false

namespace ClassInit

/-! ## Candidates and assignments -/

/-- The value of a candidate under an assignment of constants to variables, converted to the type of
its field. -/
def Constants.Candidate.valueIn (env : VariableId → Option Constant) (c : Candidate) :
    Option Constant :=
  (c.initializer.fold env).bind (·.convertTo c.type)

/-- The table with other constants. -/
def BindingTable.withConstants (t : BindingTable) (env : VariableId → Option Constant) :
    BindingTable :=
  { t with vars := t.vars.mapIdx fun i v => { v with constantValue := env ⟨i⟩ } }

/-- The second table is the first with the constants of the candidates: those of the least
assignment that extends the constants of the first and gives every candidate the value of its
initializer. -/
structure Constants.Least (cs : List Constants.Candidate) (t t' : BindingTable) : Prop where
  /-- A candidate has the value that its initializer has in the table, and none if that has none. -/
  closed : ∀ c ∈ cs, t'.variableConstant c.id = c.value? t'
  least : ∀ env : VariableId → Option Constant,
    (∀ v k, t.variableConstant v = some k → env v = some k) →
    (∀ c ∈ cs, env c.id = c.valueIn env) → ∀ v k, t'.variableConstant v = some k → env v = some k
  kept : t.KnowsMore t'
  /-- Nothing but constants of candidates is changed. -/
  table : t' = t.withConstants t'.variableConstant
  others : ∀ v, (∀ c ∈ cs, c.id ≠ v) → t'.vars[v.index]? = t.vars[v.index]?

namespace Constants

variable {t t' : BindingTable}

/-! ## Recording -/

/-- A candidate is given the value that its initializer has. -/
def Records (cs : List Candidate) (t t' : BindingTable) : Prop :=
  ∃ c ∈ cs, ∃ k, c.value? t = some k ∧ t.setConstant c.id k = .ok t'

theorem round_records {cs pending left : List Candidate} (subset : pending ⊆ cs)
    (run : (round pending).run t = (.ok left, t')) :
    Relation.ReflTransGen (Records cs) t t' ∧ left ⊆ cs := by
  induction pending generalizing t left with
  | nil =>
    obtain ⟨rfl, rfl⟩ := Step.pure_eq_ok.mp run
    exact ⟨.refl, subset⟩
  | cons c rest ih =>
    obtain ⟨hc, subset⟩ := List.cons_subset.mp subset
    rcases round_cons_ok run with ⟨-, left', rfl, inner⟩ | ⟨k, t₁, found, set, inner⟩
    · obtain ⟨steps, subset'⟩ := ih subset inner
      exact ⟨steps, List.cons_subset.mpr ⟨hc, subset'⟩⟩
    · obtain ⟨steps, subset'⟩ := ih subset inner
      exact ⟨.head ⟨c, hc, k, found, set⟩ steps, subset'⟩

theorem rounds_records {cs : List Candidate} {n : Nat} {pending left : List Candidate}
    (subset : pending ⊆ cs) (run : (rounds n pending).run t = (.ok left, t')) :
    Relation.ReflTransGen (Records cs) t t' := by
  induction n generalizing pending t with
  | zero =>
    obtain ⟨rfl, rfl⟩ := Step.pure_eq_ok.mp run
    exact .refl
  | succ n ih =>
    obtain ⟨left₁, t₁, first, run⟩ := rounds_succ_ok run
    obtain ⟨steps, subset'⟩ := round_records subset first
    rcases run with ⟨-, -, rfl⟩ | ⟨-, run⟩
    · exact steps
    · exact steps.trans (ih subset' run)

end Constants

namespace BindingTable

variable {t t' : BindingTable}

theorem withConstants_self (t : BindingTable) : t.withConstants t.variableConstant = t := by
  have vars :
      t.vars.mapIdx (fun i v => { v with constantValue := t.variableConstant ⟨i⟩ }) = t.vars := by
    refine Array.ext Array.size_mapIdx fun i _ below => ?_
    rw [Array.getElem_mapIdx]
    unfold variableConstant
    rw [Array.getElem?_eq_getElem below]
    rfl
  rw [withConstants, vars]

theorem setConstant_withConstants {id : VariableId} {k : Constant}
    (set : t.setConstant id k = .ok t') (env : VariableId → Option Constant) :
    t'.withConstants env = t.withConstants env := by
  obtain ⟨-, rfl⟩ := setConstant_eq_ok.mp set
  unfold withConstants
  congr 1
  refine Array.ext (by simp) fun i _ _ => ?_
  rw [Array.getElem_mapIdx, Array.getElem_mapIdx, Array.getElem_modify]
  split <;> rfl

end BindingTable

namespace Constants

section

variable {cs : List Candidate} {t t' : BindingTable}
  (steps : Relation.ReflTransGen (Records cs) t t')

include steps

theorem withConstants_of_records (env : VariableId → Option Constant) :
    t'.withConstants env = t.withConstants env := by
  induction steps with
  | refl => rfl
  | tail _ step ih =>
    obtain ⟨c, -, k, -, set⟩ := step
    exact (BindingTable.setConstant_withConstants set env).trans ih

theorem entry_of_records {v : VariableId} (other : ∀ c ∈ cs, c.id ≠ v) :
    t'.vars[v.index]? = t.vars[v.index]? := by
  induction steps with
  | refl => rfl
  | tail _ step ih =>
    obtain ⟨c, hc, k, -, set⟩ := step
    rw [← ih]
    unfold BindingTable.setConstant at set
    split at set
    · cases set
      rw [Array.getElem?_modify, if_neg]
      intro same
      exact other c hc (VariableId.eq_of_index same)
    · cases set

/-- What is recorded belongs to every assignment that is closed. -/
theorem least_of_records {env : VariableId → Option Constant}
    (closed : ∀ c ∈ cs, env c.id = c.valueIn env)
    (above : ∀ v k, t.variableConstant v = some k → env v = some k) (v : VariableId) (k : Constant)
    (known : t'.variableConstant v = some k) : env v = some k := by
  induction steps generalizing v k with
  | refl => exact above v k known
  | tail _ step ih =>
    obtain ⟨c, hc, value, found, set⟩ := step
    obtain ⟨-, -, own, others⟩ := BindingTable.setConstant_spec set
    by_cases same : v = c.id
    · subst same
      rw [own] at known
      cases known
      -- The initializer has the value under the closed assignment as well.
      obtain ⟨folded, constant, converted⟩ := Option.bind_eq_some_iff.mp found
      rw [closed c hc]
      exact Option.bind_eq_some_iff.mpr
        ⟨folded, Expr.foldAt_mono ih c.initializer 0 folded constant, converted⟩
    · rw [others v same] at known
      exact ih v k known

end

/-! ## Ending -/

section

variable {all pending left : List Candidate} {t t' : BindingTable}

/-- A round that leaves all candidates found no value. -/
theorem round_stable (run : (round pending).run t = (.ok left, t'))
    (stays : left.length = pending.length) :
    left = pending ∧ t' = t ∧ ∀ c ∈ pending, c.value? t = none := by
  induction pending generalizing left with
  | nil =>
    obtain ⟨rfl, rfl⟩ := Step.pure_eq_ok.mp run
    exact ⟨rfl, rfl, fun _ hc => absurd hc List.not_mem_nil⟩
  | cons c cs ih =>
    rcases round_cons_ok run with ⟨unknown, left', rfl, inner⟩ | ⟨_, _, -, -, inner⟩
    · obtain ⟨rfl, rfl, others⟩ := ih inner (Nat.succ.inj stays)
      exact ⟨rfl, rfl, List.forall_mem_cons.mpr ⟨unknown, others⟩⟩
    · exact absurd (round_sublist inner).length_le (by rw [stays]; exact Nat.not_succ_le_self _)

/-- A round leaves the candidates that have no value after it. -/
theorem round_left (unique : (all.map (·.id)).Nodup) (sound : Sound all t)
    (waiting : Waiting all t pending) (run : (round pending).run t = (.ok left, t')) :
    left = pending.filter fun c => (t'.variableConstant c.id).isNone := by
  induction pending generalizing t left with
  | nil =>
    obtain ⟨rfl, -⟩ := Step.pure_eq_ok.mp run
    rfl
  | cons c cs ih =>
    rcases round_cons_ok run with ⟨-, left', rfl, inner⟩ | ⟨k, t₁, found, set, inner⟩
    · obtain ⟨-, finds, -⟩ := round_ok unique sound waiting.tail inner
      have unknown : t'.variableConstant c.id = none :=
        (finds.others c.id waiting.ne_head).trans (waiting.unknown c List.mem_cons_self)
      rw [List.filter_cons_of_pos (by rw [unknown]; rfl), ← ih sound waiting.tail inner]
    · obtain ⟨sound₁, -, waiting₁⟩ := waiting.record unique sound found set
      obtain ⟨-, finds, -⟩ := round_ok unique sound₁ waiting₁ inner
      have known := finds.more c.id k (BindingTable.setConstant_spec set).2.2.1
      rw [List.filter_cons_of_neg (by rw [known]; exact nofun), ← ih sound₁ waiting₁ inner]

/-- As many rounds as there are candidates leave none that has a value. -/
theorem rounds_exhaust (unique : (all.map (·.id)).Nodup) {n : Nat} (few : pending.length ≤ n)
    (sound : Sound all t) (waiting : Waiting all t pending)
    (run : (rounds n pending).run t = (.ok left, t')) :
    (left = pending.filter fun c => (t'.variableConstant c.id).isNone) ∧
      ∀ c ∈ left, c.value? t' = none := by
  induction n generalizing pending t with
  | zero =>
    obtain ⟨rfl, rfl⟩ := Step.pure_eq_ok.mp run
    rw [List.eq_nil_of_length_eq_zero (Nat.le_zero.mp few)]
    exact ⟨rfl, fun _ hc => absurd hc List.not_mem_nil⟩
  | succ n ih =>
    obtain ⟨left₁, t₁, first, run⟩ := rounds_succ_ok run
    have filtered := round_left unique sound waiting first
    rcases run with ⟨stays, rfl, rfl⟩ | ⟨changes, run⟩
    · obtain ⟨same, rfl, unknown⟩ := round_stable first stays
      exact ⟨filtered, same ▸ unknown⟩
    · obtain ⟨sound₁, -, waiting₁⟩ := round_ok unique sound waiting first
      have shorter : left₁.length ≤ n :=
        Nat.le_of_lt_succ
          (Nat.lt_of_lt_of_le (Nat.lt_of_le_of_ne (round_sublist first).length_le changes) few)
      obtain ⟨left_eq, unknown⟩ := ih shorter sound₁ waiting₁ run
      refine ⟨?_, unknown⟩
      rw [left_eq, filtered, List.filter_filter]
      -- What has no value in the end had none after the first round.
      refine List.filter_congr fun c _ => ?_
      cases known : t₁.variableConstant c.id with
      | none => exact Bool.and_true _
      | some k =>
        rw [(rounds_ok unique sound₁ waiting₁ run).2.more c.id k known]
        rfl

end

/-! ## Units -/

/-- There is only one least assignment, in whatever order the candidates are listed. -/
theorem Least.unique {cs cs' : List Candidate} {t t₁ t₂ : BindingTable} (perm : cs.Perm cs')
    (first : Least cs t t₁) (second : Least cs' t t₂) : t₁ = t₂ := by
  have same : t₁.variableConstant = t₂.variableConstant := by
    funext v
    refine Option.ext fun k => ⟨?_, ?_⟩
    · exact first.least _ second.kept (fun c hc => second.closed c (perm.mem_iff.mp hc)) v k
    · exact second.least _ first.kept (fun c hc => first.closed c (perm.mem_iff.mpr hc)) v k
  rw [first.table, second.table, same]

variable {u : CompilationUnit} {t : BindingTable}

/-- Recording the constants of a unit ends with the least assignment. -/
theorem bindConstants_eq
    (known : ∀ s ∈ u.allSlots, ∀ v, s.fragment.binding = some v → v.index < t.vars.size)
    (distinct : ((u.candidates t).map (·.id)).Nodup)
    (few : (u.candidates t).length ≤ Limits.constantRounds) :
    ∃ t', Least (u.candidates t) t t' ∧
      t.bindConstants u =
        (.ok ((u.candidates t).countP fun c => (t'.variableConstant c.id).isSome), t') := by
  obtain ⟨left, t', run, result⟩ := bindConstants_run known
  have unknown : ∀ c ∈ u.candidates t, t.variableConstant c.id = none :=
    fun c hc => (mem_candidates hc).1
  have waiting : Waiting (u.candidates t) t (u.candidates t) := ⟨fun _ hc => hc, distinct, unknown⟩
  obtain ⟨sound, finds⟩ := rounds_ok distinct (.of_unknown unknown) waiting run
  obtain ⟨left_eq, exhausted⟩ := rounds_exhaust distinct few (.of_unknown unknown) waiting run
  have steps := rounds_records (List.Subset.refl _) run
  refine ⟨t',
    ⟨fun c hc => ?_, fun env above closed => least_of_records steps closed above, finds.more, ?_,
    fun v => entry_of_records steps⟩, ?_⟩
  · cases value : t'.variableConstant c.id with
    | some k => exact (sound c hc k value).symm
    | none =>
      refine (exhausted c ?_).symm
      rw [left_eq]
      exact List.mem_filter.mpr ⟨hc, by rw [value]; rfl⟩
  · rw [← withConstants_of_records steps, BindingTable.withConstants_self]
  · have counts := (u.candidates t).length_eq_countP_add_countP fun c =>
      (t'.variableConstant c.id).isSome
    have none : left.length = (u.candidates t).countP fun c =>
        decide ¬(t'.variableConstant c.id).isSome = true := by
      rw [left_eq, ← List.countP_eq_length_filter]
      refine List.countP_congr fun c _ => ?_
      cases t'.variableConstant c.id <;> simp
    rw [result, none]
    congr 2
    omega

end Constants

namespace CompilationUnit

variable {u : CompilationUnit} {t : BindingTable}

/-- Recording the constants of a unit records the least assignment, and yields the number of values
found. No order of types, members or declarators makes a difference. -/
theorem bindConstants_least
    (known : ∀ s ∈ u.allSlots, ∀ v, s.fragment.binding = some v → v.index < t.vars.size)
    (distinct : ((u.candidates t).map (·.id)).Nodup)
    (few : (u.candidates t).length ≤ Limits.constantRounds) :
    Constants.Least (u.candidates t) t (t.bindConstants u).2 ∧
      (t.bindConstants u).1 = .ok ((u.candidates t).countP fun c =>
        ((t.bindConstants u).2.variableConstant c.id).isSome) ∧
      ∀ u', u.Rearranges u' → t.bindConstants u' = t.bindConstants u := by
  obtain ⟨t', least, result⟩ := Constants.bindConstants_eq known distinct few
  rw [result]
  refine ⟨least, rfl, fun u' rearranged => ?_⟩
  have perm : (u.candidates t).Perm (u'.candidates t) := rearranged.allSlots.filterMap _
  obtain ⟨t'', least', result'⟩ := Constants.bindConstants_eq
    (fun s hs => known s (rearranged.allSlots.mem_iff.mpr hs)) ((perm.map _).nodup_iff.mp distinct)
    (perm.length_eq ▸ few)
  obtain rfl := least.unique perm least'
  rw [result', perm.countP_eq]

/-- `class A extends B { final int x = y + 1, y = z, p = q, q = p; void m() { class L { final String
s = "a" + x; } } } class B { final int z = 2; }`. -/
def constantUnit : CompilationUnit :=
  let n : NodeInfo := ⟨.unassigned, .dummy⟩
  let e : ExprInfo := ⟨.unassigned, .dummy, none⟩
  let name (x : String) : Expr := .name e x none
  let fields (type : TypeRef) (fs : List (String × Expr)) : Member :=
    .field ⟨.unassigned, .dummy, .ofList [.final], type, fs.map fun (name, value) =>
      ⟨.dummy, name, some value, none⟩⟩
  let type (name : String) (superclass : Option TypeName) (ms : List Member) : TypeDecl :=
    ⟨⟨.unassigned, .dummy, .classType, name, .empty, superclass, none, []⟩, ms⟩
  let text : Expr := .binary e .add (.literal e (.string "a")) (name "x")
  let inner := type "L" none [fields (.declared ⟨"String", none⟩) [("s", text)]]
  let method : MethodHead := ⟨.unassigned, .dummy, "m", .empty, .void, [], false, none, false⟩
  ⟨"A.java", none,
    [type "A" (some ⟨"B", none⟩)
      [fields (.primitive .int)
        [("x", .binary e .add (name "y") (.literal e (.int 1))), ("y", name "z"), ("p", name "q"),
          ("q", name "p")],
        .method ⟨method, some ⟨n, [.localType n inner]⟩⟩],
      type "B" none [fields (.primitive .int) [("z", .literal e (.int 2))]]],
    .initial⟩

/-- Four of the six fields get values; the two that are defined through each other get none. -/
theorem bindConstants_least_sample :
    let bound := constantUnit.bind .new
    (∀ s ∈ bound.unit.allSlots, ∀ v, s.fragment.binding = some v →
      v.index < bound.table.vars.size) ∧
      (bound.unit.candidates bound.table).map (·.id) = [⟨0⟩, ⟨1⟩, ⟨2⟩, ⟨3⟩, ⟨4⟩, ⟨5⟩] ∧
      Constants.Least (bound.unit.candidates bound.table) bound.table
        (bound.table.bindConstants bound.unit).2 ∧
      (bound.table.bindConstants bound.unit).1 = .ok 4 ∧
      bound.table.bindConstants { bound.unit with types := bound.unit.types.reverse } =
        bound.table.bindConstants bound.unit := by
  intro bound
  have known :
      ∀ s ∈ bound.unit.allSlots, ∀ v ∈ s.fragment.binding, v.index < bound.table.vars.size := by
    decide +kernel
  have ids : (bound.unit.candidates bound.table).map (·.id) = [⟨0⟩, ⟨1⟩, ⟨2⟩, ⟨3⟩, ⟨4⟩, ⟨5⟩] := by
    decide +kernel
  have few : (bound.unit.candidates bound.table).length ≤ Limits.constantRounds := by decide +kernel
  obtain ⟨least, -, ordered⟩ := bindConstants_least known (by rw [ids]; decide) few
  exact ⟨known, ids,
    least, by decide +kernel, ordered _ (.of_perm bound.unit (List.reverse_perm _).symm)⟩

end CompilationUnit

end ClassInit
