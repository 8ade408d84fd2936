import ClassInit.Proofs.Lowering.Comparison

/-!
# Runs that follow others

Two runs of lowering need not do the same for the one to go well whenever the other does. `Follows`
says of two kinds of runs that wherever a run of the first kind succeeds, one of the second kind
succeeds from any state, with a related value. Both start from tables that have grown from the same
one, and what is added to the one table says nothing about what is added to the other. The rules
follow the ways in which steps and edits are put together.
-/

set_option autoImplicit false

namespace ClassInit.Lowering

/-- Runs of the first kind are followed by runs of the second. -/
def Follows {α β : Type} (t : BindingTable) (R : α → β → Prop) (run : Run α) (run' : Run β) :
    Prop :=
  ∀ ⦃s a s₁ s'⦄, t.Grows s.table → t.Grows s'.table → run s a s₁ →
    t.Grows s₁.table ∧ ∃ b s₁', run' s' b s₁' ∧ R a b ∧ t.Grows s₁'.table

/-- Where the first step succeeds, the second does. -/
def StepFollows {α β : Type} (t : BindingTable) (R : α → β → Prop) (m : Step α) (m' : Step β) :
    Prop :=
  Follows t R (succeeded m) (succeeded m')

/-- Where the first edit finishes, the second does. -/
def EditFollows {α β : Type} (t : BindingTable) (R : α → β → Prop) (m : Edit State Failure α)
    (m' : Edit State Failure β) : Prop := Follows t R (finished m) (finished m')

variable {t : BindingTable} {α α' β β' : Type} {R : α → α' → Prop} {S : β → β' → Prop}

/-! ## Runs -/

namespace Follows

/-- One run after the other. -/
theorem comp {run : Run α} {run' : Run α'} {next : α → Run β} {next' : α' → Run β'}
    (first : Follows t R run run') (rest : ∀ a a', R a a' → Follows t S (next a) (next' a')) :
    Follows t S (fun s b s₂ => ∃ a s₁, run s a s₁ ∧ next a s₁ b s₂)
      (fun s b s₂ => ∃ a s₁, run' s a s₁ ∧ next' a s₁ b s₂) := by
  rintro s b s₂ s' grown grown' ⟨a, s₁, hrun, hnext⟩
  obtain ⟨grown₁, a', s₁', hrun', related, grown₁'⟩ := first grown grown' hrun
  obtain ⟨grown₂, b', s₂', hnext', related', grown₂'⟩ := rest a a' related grown₁ grown₁' hnext
  exact ⟨grown₂, b', s₂', ⟨a', s₁', hrun', hnext'⟩, related', grown₂'⟩

/-- Runs may be told in another way. -/
theorem congr {run told : Run α} {run' told' : Run α'} (follows : Follows t R run run')
    (same : ∀ s a s₁, told s a s₁ ↔ run s a s₁) (same' : ∀ s a s₁, told' s a s₁ ↔ run' s a s₁) :
    Follows t R told told' := by
  intro s a s₁ s' grown grown' h
  obtain ⟨grown₁, a', s₁', hrun', rest⟩ := follows grown grown' ((same s a s₁).mp h)
  exact ⟨grown₁, a', s₁', (same' s' a' s₁').mpr hrun', rest⟩

/-- The values of runs may be put into a whole. -/
theorem map {run : Run α} {run' : Run α'} {F : α → β} {F' : α' → β'}
    (follows : Follows t R run run') (related : ∀ a a', R a a' → S (F a) (F' a')) :
    Follows t S (fun s b s₁ => ∃ a, run s a s₁ ∧ F a = b) (fun s b s₁ => ∃ a, run' s a s₁ ∧
      F' a = b) := by
  rintro s b s₁ s' grown grown' ⟨a, hrun, rfl⟩
  obtain ⟨grown₁, a', s₁', hrun', holds, grown₁'⟩ := follows grown grown' hrun
  exact ⟨grown₁, F' a', s₁', ⟨a', hrun', rfl⟩, related a a' holds, grown₁'⟩

/-- Runs that leave the table alone. -/
theorem of_table {run : Run α} {run' : Run α'} (kept : ∀ ⦃s a s₁⦄, run s a s₁ → s₁.table = s.table)
    (same : ∀ ⦃s a s₁ s'⦄, t.Grows s.table → t.Grows s'.table → run s a s₁ →
      ∃ b s₁', run' s' b s₁' ∧ R a b ∧ s₁'.table = s'.table) : Follows t R run run' := by
  intro s a s₁ s' grown grown' hrun
  obtain ⟨b, s₁', hrun', related, table⟩ := same grown grown' hrun
  rw [kept hrun]
  refine ⟨grown, b, s₁', hrun', related, ?_⟩
  rw [table]
  exact grown'

end Follows

/-! ## Steps -/

namespace StepFollows

theorem pure {a : α} {a' : α'} (related : R a a') :
    StepFollows t R (Pure.pure a : Step α) (Pure.pure a') := by
  refine Follows.of_table (fun s b s₁ run => ?_) fun s b s₁ s' _ _ run => ?_
  · rw [(Step.pure_eq_ok.mp run).2]
  · obtain ⟨rfl, rfl⟩ := Step.pure_eq_ok.mp run
    exact ⟨a', s', rfl, related, rfl⟩

/-- A step that fails is followed by anything. -/
theorem throw {e : Failure} {m' : Step α'} : StepFollows t R (MonadExcept.throw e : Step α) m' :=
  fun _ _ _ _ _ _ run => absurd run Step.throw_ne_ok

theorem bind {m : Step α} {m' : Step α'} {k : α → Step β} {k' : α' → Step β'}
    (first : StepFollows t R m m') (rest : ∀ a a', R a a' → StepFollows t S (k a) (k' a')) :
    StepFollows t S (m >>= k) (m' >>= k') :=
  (Follows.comp first rest).congr (fun _ _ _ => Step.bind_eq_ok) fun _ _ _ => Step.bind_eq_ok

theorem mint {m : Numbered α} {m' : Numbered α'} (related : ∀ s s', R (m s).1 (m' s').1) :
    StepFollows t R (mint m) (mint m') := by
  refine Follows.of_table (fun s a s₁ run => ?_) fun s a s₁ s' _ _ run => ?_
  · obtain ⟨-, rfl⟩ := mint_eq_ok.mp run
    rfl
  · obtain ⟨rfl, rfl⟩ := mint_eq_ok.mp run
    exact ⟨_, _, mint_eq_ok.mpr ⟨rfl, rfl⟩, related _ _, rfl⟩

/-- What the first step mints may have no counterpart. -/
theorem mint_left {m : Numbered α} {k : α → Step β} {m' : Step β'}
    (rest : ∀ s, StepFollows t S (k (m s).1) m') : StepFollows t S (Lowering.mint m >>= k) m' := by
  intro s b s₂ s' grown grown' run
  obtain ⟨a, s₁, minted, run⟩ := Step.bind_eq_ok.mp run
  obtain ⟨rfl, rfl⟩ := mint_eq_ok.mp minted
  have grown₁ : t.Grows ({ s with supply := (m s.supply).2 } : State).table := grown
  exact rest s.supply grown₁ grown' run

theorem count (f f' : Stats → Stats) :
    StepFollows t (fun _ _ : Unit => True) (liftM (count f) : Step Unit)
      (liftM (Lowering.count f')) := by
  refine Follows.of_table (fun s a s₁ run => ?_) fun s a s₁ s' _ _ _ => ?_
  · obtain ⟨-, rfl⟩ := Prod.mk.inj (Step.lift_eq_ok.mp run)
    rfl
  · exact ⟨(), { s' with stats := f' s'.stats }, Step.lift_eq_ok.mpr rfl, trivial, rfl⟩

/-- A question whose answers are the same for all tables that have grown from the same one. -/
theorem ask {name name' : String} {span span' : Span}
    {question : BindingTable → Except ResolveError α}
    {question' : BindingTable → Except ResolveError α'}
    (stays : ∀ t', t.Grows t' → question t' = question t)
    (stays' : ∀ t', t.Grows t' → question' t' = question' t)
    (answers : ∀ a, question t = .ok a → ∃ b, question' t = .ok b ∧ R a b) :
    StepFollows t R (ask name span question) (Lowering.ask name' span' question') := by
  refine Follows.of_table (fun s a s₁ run => ?_) fun s a s₁ s' grown grown' run => ?_
  · rw [(ask_eq_ok.mp run).2]
  · obtain ⟨asked, rfl⟩ := ask_eq_ok.mp run
    rw [stays _ grown] at asked
    obtain ⟨b, answer, related⟩ := answers a asked
    rw [← stays' _ grown'] at answer
    exact ⟨b, s', ask_eq_ok.mpr ⟨answer, rfl⟩, related, rfl⟩

/-- A question to the types of the table, which stay. -/
theorem ask_same {name name' : String} {span span' : Span}
    {question : BindingTable → Except ResolveError α}
    (stays : ∀ t', t.Grows t' → question t' = question t) :
    StepFollows t (fun a b => question t = .ok a ∧ b = a) (Lowering.ask name span question)
      (Lowering.ask name' span' question) :=
  .ask stays stays fun a answer => ⟨a, answer, answer, rfl⟩

/-- Entries for the same method get new handles. -/
theorem enter {name name' : String} {span span' : Span}
    {add : BindingTable → Except ResolveError (MethodId × BindingTable)} {m : MethodBinding}
    {owner : TypeId}
    (adds : ∀ t id t', add t = .ok (id, t') ↔ (∃ d, t.typeAt owner = .ok d) ∧
    t.addMethod m = (id, t'))
    (synthetic : m.isSynthetic = true ∧ m.parameterTypes = [] ∧ m.returnType = .void) :
    StepFollows t (fun id id' => t.methods.size ≤ id.index ∧ t.methods.size ≤ id'.index)
      (enter name span add) (Lowering.enter name' span' add) := by
  have grows : ∀ t : BindingTable, t.Grows (t.addMethod m).2 :=
    fun t => .addMethod t synthetic.1 synthetic.2.1 synthetic.2.2
  intro s id s₁ s' grown grown' run
  obtain ⟨t₁, added, rfl⟩ := enter_eq_ok.mp run
  obtain ⟨⟨d, found⟩, added⟩ := (adds _ _ _).mp added
  obtain ⟨rfl, rfl⟩ := Prod.mk.inj added
  have found' : s'.table.typeAt owner = .ok d := by
    rw [BindingTable.typeAt, grown'.sameTypes, ← grown.sameTypes]
    exact found
  refine ⟨grown.trans (grows _), ⟨s'.table.methods.size⟩,
    { s' with table := (s'.table.addMethod m).2 }, ?_, ?_, grown'.trans (grows _)⟩
  · exact enter_eq_ok.mpr ⟨_, (adds _ _ _).mpr ⟨⟨d, found'⟩, rfl⟩, rfl⟩
  · exact ⟨grown.size_le, grown'.size_le⟩

end StepFollows

/-! ## Edits -/

namespace EditFollows

theorem keep {a : α} {a' : α'} (related : R a a') :
    EditFollows t R (Edit.keep a) (Edit.keep a') := by
  refine Follows.of_table (fun s b s₁ run => ?_) fun s b s₁ s' _ _ run => ?_
  · rw [(Edit.keep_eq_done.mp run).2]
  · obtain ⟨rfl, rfl⟩ := Edit.keep_eq_done.mp run
    exact ⟨a', s', rfl, related, rfl⟩

theorem map {m : Edit State Failure α} {m' : Edit State Failure α'} {F : α → β} {F' : α' → β'}
    (follows : EditFollows t R m m') (related : ∀ a a', R a a' → S (F a) (F' a')) :
    EditFollows t S (m.map F) (m'.map F') :=
  (Follows.map follows related).congr (fun _ _ _ => Edit.map_eq_done) fun _ _ _ => Edit.map_eq_done

theorem andThen {m : Edit State Failure α} {m' : Edit State Failure α'} {whole : α → β}
    {whole' : α' → β'} {next : α → Edit State Failure β} {next' : α' → Edit State Failure β'}
    (first : EditFollows t R m m') (rest : ∀ a a', R a a' → EditFollows t S (next a) (next' a')) :
    EditFollows t S (m.andThen whole next) (m'.andThen whole' next') :=
  (Follows.comp first rest).congr (fun _ _ _ => Edit.andThen_eq_done) fun _ _ _ =>
    Edit.andThen_eq_done

theorem seq {R' : α → α' → Prop} {m : Edit State Failure α} {m' : Edit State Failure α'}
    {next : α → Edit State Failure α} {next' : α' → Edit State Failure α'}
    (first : EditFollows t R m m') (rest : ∀ a a', R a a' → EditFollows t R' (next a) (next' a')) :
    EditFollows t R' (m.seq next) (m'.seq next') := first.andThen rest

theorem editBy {left : α} {left' : α'} {m : Step α} {m' : Step α'}
    (follows : StepFollows t R m m') :
    EditFollows t R (editBy left m) (Lowering.editBy left' m') :=
  Follows.congr follows (fun _ _ _ => editBy_eq_done) fun _ _ _ => editBy_eq_done

/-- A computation that cannot fail and leaves the table alone. -/
theorem ofState {m : StateM State α} {m' : StateM State α'} (kept : ∀ s, (m s).2.table = s.table)
    (kept' : ∀ s, (m' s).2.table = s.table) (related : ∀ s s', R (m s).1 (m' s').1) :
    EditFollows t R (Edit.ofState m) (Edit.ofState m') := by
  refine Follows.of_table (fun s a s₁ run => ?_) fun s a s₁ s' _ _ run => ?_
  · have table := kept s
    rw [Edit.ofState_eq_done.mp run] at table
    exact table
  · have holds := related s s'
    rw [Edit.ofState_eq_done.mp run] at holds
    exact ⟨(m' s').1, (m' s').2, Edit.ofState_eq_done.mpr rfl, holds, kept' s'⟩

/-- Lists of edits follow each other if the single edits do. -/
theorem list {F : α → Edit State Failure α} {F' : α' → Edit State Failure α'} {as : List α}
    {bs : List α'} (follows : List.Forall₂ (fun a b => EditFollows t R (F a) (F' b)) as bs) :
    EditFollows t (List.Forall₂ R) (Edit.list F as) (Edit.list F' bs) := by
  induction follows with
  | nil => exact .keep .nil
  | cons one _ ih =>
    exact .andThen one fun a b related => .map ih fun as bs all => .cons related all

end EditFollows

end ClassInit.Lowering
