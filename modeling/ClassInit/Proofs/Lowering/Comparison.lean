import ClassInit.Proofs.Lowering.Steps

/-!
# Two runs side by side

Two runs of lowering that start from tables with the same types and variables are compared: if the
first succeeds, so does the second, with a value that looks the same and with the same entries added
to the table (`Comparison.Runs`). Handles of new methods depend on how many entries there are
already, so a value is looked at through a mask that takes all handles of new methods for one. The
rules follow the ways in which steps and edits are put together.
-/

set_option autoImplicit false

namespace ClassInit.Lowering

/-- A run in terms of the state at its start, its value and the state at its end. -/
abbrev Run (α : Type) := State → α → State → Prop

/-- The runs of a step that succeed. -/
def succeeded {α : Type} (m : Step α) : Run α := fun s a s' => m.run s = (.ok a, s')

/-- The runs of an edit that finish. -/
def finished {α : Type} (m : Edit State Failure α) : Run α := fun s a s' => m s = (.done a, s')

/-- How runs are compared: all start from tables that have grown from the same one, no table gets
more than `high` methods, and the mask takes the handles of new methods for one. -/
structure Comparison where
  table : BindingTable
  high : Nat
  mask : Option MethodId → Option MethodId
  merges : ∀ j k, table.methods.size ≤ j → j < high → table.methods.size ≤ k → k < high →
    mask (some ⟨j⟩) = mask (some ⟨k⟩)

/-- From the first states to the last ones, both tables get the same entries. -/
def AddAlike (s s₁ s' s₁' : State) : Prop :=
  ∃ added : List MethodBinding, s₁.table.methods.toList = s.table.methods.toList ++ added ∧
    s₁'.table.methods.toList = s'.table.methods.toList ++ added

namespace AddAlike

variable {s s₁ s₂ s' s₁' s₂' : State}

theorem refl (s s' : State) : AddAlike s s s' s' :=
  ⟨[], (List.append_nil _).symm, (List.append_nil _).symm⟩

theorem trans (first : AddAlike s s₁ s' s₁') (second : AddAlike s₁ s₂ s₁' s₂') :
    AddAlike s s₂ s' s₂' := by
  obtain ⟨added, all, all'⟩ := first
  obtain ⟨more, all₂, all₂'⟩ := second
  refine ⟨added ++ more, ?_, ?_⟩
  · rw [all₂, all, List.append_assoc]
  · rw [all₂', all', List.append_assoc]

/-- Both tables get equally many methods. -/
theorem size_add (alike : AddAlike s s₁ s' s₁') :
    s₁.table.methods.size + s'.table.methods.size =
      s.table.methods.size + s₁'.table.methods.size := by
  obtain ⟨added, all, all'⟩ := alike
  have size := size_of_append all
  have size' := size_of_append all'
  omega

end AddAlike

namespace Comparison

variable (c : Comparison) {α β γ δ : Type}

/-- Runs of the first kind grow the table. If the second table has room for as many methods as one
of them adds, a run of the second kind adds the same, with a value that looks the same. -/
structure Runs (v : α → γ) (run run' : Run α) : Prop where
  grows : ∀ {s a s₁}, run s a s₁ → s.table.Grows s₁.table
  follows : ∀ {s a s₁ s'}, c.table.Grows s.table → c.table.Grows s'.table → run s a s₁ →
    s₁.table.methods.size ≤ c.high →
    s'.table.methods.size + s₁.table.methods.size ≤ s.table.methods.size + c.high →
    ∃ b s₁', run' s' b s₁' ∧ v a = v b ∧ s'.table.Grows s₁'.table ∧ AddAlike s s₁ s' s₁'

/-- The steps succeed alike. -/
def Steps (v : α → γ) (m m' : Step α) : Prop := c.Runs v (succeeded m) (succeeded m')

/-- The edits finish alike. -/
def Edits (v : α → γ) (m m' : Edit State Failure α) : Prop :=
  c.Runs v (finished m) (finished m')

variable {c} {v : α → γ} {w : β → δ}

/-! ## Runs -/

namespace Runs

/-- One run after the other. -/
theorem comp {run run' : Run α} {next next' : α → Run β} (first : c.Runs v run run')
    (rest : ∀ a b, v a = v b → c.Runs w (next a) (next' b)) :
    c.Runs w (fun s b s₂ => ∃ a s₁, run s a s₁ ∧ next a s₁ b s₂)
      (fun s b s₂ => ∃ a s₁, run' s a s₁ ∧ next' a s₁ b s₂) := by
  constructor
  · rintro s b s₂ ⟨a, s₁, hrun, hnext⟩
    exact (first.grows hrun).trans ((rest a a rfl).grows hnext)
  · rintro s b s₂ s' grown grown' ⟨a, s₁, hrun, hnext⟩ below room
    have grows := (rest a a rfl).grows hnext
    have between := grows.size_le
    obtain ⟨a', s₁', hrun', same, grows', alike⟩ :=
      first.follows grown grown' hrun (by omega) (by omega)
    have sizes := alike.size_add
    obtain ⟨b', s₂', hnext', same', grows₂, alike'⟩ := (rest a a' same).follows
      (grown.trans (first.grows hrun)) (grown'.trans grows') hnext below (by omega)
    exact ⟨b', s₂', ⟨a', s₁', hrun', hnext'⟩, same', grows'.trans grows₂, alike.trans alike'⟩

/-- Runs may be told in another way. -/
theorem congr {run run' : Run α} {told told' : Run α} (runs : c.Runs v run run')
    (same : ∀ s a s₁, told s a s₁ ↔ run s a s₁) (same' : ∀ s a s₁, told' s a s₁ ↔ run' s a s₁) :
    c.Runs v told told' := by
  constructor
  · intro s a s₁ h
    exact runs.grows ((same s a s₁).mp h)
  · intro s a s₁ s' grown grown' h below room
    obtain ⟨b, s₁', hrun', rest⟩ := runs.follows grown grown' ((same s a s₁).mp h) below room
    exact ⟨b, s₁', (same' s' b s₁').mpr hrun', rest⟩

/-- The values of runs may be put into a whole. -/
theorem map {run run' : Run α} {F F' : α → β} (runs : c.Runs v run run')
    (same : ∀ a b, v a = v b → w (F a) = w (F' b)) :
    c.Runs w (fun s b s₁ => ∃ a, run s a s₁ ∧ F a = b)
      (fun s b s₁ => ∃ a, run' s a s₁ ∧ F' a = b) := by
  constructor
  · rintro s b s₁ ⟨a, hrun, -⟩
    exact runs.grows hrun
  · rintro s b s₁ s' grown grown' ⟨a, hrun, rfl⟩ below room
    obtain ⟨a', s₁', hrun', same', rest⟩ := runs.follows grown grown' hrun below room
    exact ⟨F' a', s₁', ⟨a', hrun', rfl⟩, same a a' same', rest⟩

/-- Runs that leave the table alone and look the same. -/
theorem of_table {run run' : Run α} (kept : ∀ {s a s₁}, run s a s₁ → s₁.table = s.table)
    (same : ∀ {s a s₁ s'}, c.table.Grows s.table → c.table.Grows s'.table → run s a s₁ →
      ∃ b s₁', run' s' b s₁' ∧ v a = v b ∧ s₁'.table = s'.table) :
    c.Runs v run run' := by
  constructor
  · intro s a s₁ hrun
    rw [kept hrun]
    exact .refl _
  · intro s a s₁ s' grown grown' hrun below room
    obtain ⟨b, s₁', hrun', looks, table⟩ := same grown grown' hrun
    refine ⟨b, s₁', hrun', looks, ?_, ?_⟩
    · rw [table]
      exact .refl _
    · obtain ⟨added, all, all'⟩ := AddAlike.refl s s'
      exact ⟨added, by rw [kept hrun]; exact all, by rw [table]; exact all'⟩

end Runs

/-! ## Steps -/

namespace Steps

theorem pure {a b : α} (same : v a = v b) :
    c.Steps v (Pure.pure a : Step α) (Pure.pure b) := by
  refine Runs.of_table (fun run => ?_) fun _ _ run => ?_
  · rw [(Step.pure_eq_ok.mp run).2]
  · obtain ⟨rfl, rfl⟩ := Step.pure_eq_ok.mp run
    exact ⟨b, _, rfl, same, rfl⟩

/-- A step that fails is followed by anything. -/
theorem throw {e : Failure} {m' : Step α} : c.Steps v (MonadExcept.throw e : Step α) m' :=
  ⟨fun run => absurd run Step.throw_ne_ok, fun _ _ run => absurd run Step.throw_ne_ok⟩

theorem bind {m m' : Step α} {k k' : α → Step β} (first : c.Steps v m m')
    (rest : ∀ a b, v a = v b → c.Steps w (k a) (k' b)) :
    c.Steps w (m >>= k) (m' >>= k') :=
  (Runs.comp first rest).congr (fun _ _ _ => Step.bind_eq_ok) fun _ _ _ => Step.bind_eq_ok

theorem mint {m m' : Numbered α} (same : ∀ s s', v (m s).1 = v (m' s').1) :
    c.Steps v (mint m) (mint m') := by
  refine Runs.of_table (fun run => ?_) fun {s a s₁ s'} _ _ run => ?_
  · obtain ⟨-, rfl⟩ := mint_eq_ok.mp run
    rfl
  · obtain ⟨rfl, rfl⟩ := mint_eq_ok.mp run
    exact ⟨_, _, mint_eq_ok.mpr ⟨rfl, rfl⟩, same _ _, rfl⟩

theorem count (f f' : Stats → Stats) :
    c.Steps (fun u : Unit => u) (liftM (count f) : Step Unit) (liftM (Lowering.count f')) := by
  refine Runs.of_table (fun run => ?_) fun {s a s₁ s'} _ _ run => ?_
  · obtain ⟨-, rfl⟩ := Prod.mk.inj (Step.lift_eq_ok.mp run)
    rfl
  · exact ⟨(), { s' with stats := f' s'.stats }, Step.lift_eq_ok.mpr rfl, rfl, rfl⟩

/-- A question that has one answer for all tables that have grown from the same one. -/
theorem ask {name name' : String} {span span' : Span}
    {question question' : BindingTable → Except ResolveError α}
    (answer : ∀ t', c.table.Grows t' → question t' = question c.table)
    (answer' : ∀ t', c.table.Grows t' → question' t' = question c.table) :
    c.Steps (fun a : α => a) (ask name span question) (Lowering.ask name' span' question') := by
  refine Runs.of_table (fun run => ?_) fun {s a s₁ s'} grown grown' run => ?_
  · rw [(ask_eq_ok.mp run).2]
  · obtain ⟨asked, rfl⟩ := ask_eq_ok.mp run
    refine ⟨a, s', ask_eq_ok.mpr ⟨?_, rfl⟩, rfl, rfl⟩
    rw [answer' s'.table grown', ← answer s.table grown, asked]

/-- Entries for the same method look the same, whatever handles they get. -/
theorem enter {name name' : String} {span span' : Span}
    {add add' : BindingTable → Except ResolveError (MethodId × BindingTable)} {m : MethodBinding}
    {owner : TypeId}
    (adds : ∀ t id t', add t = .ok (id, t') ↔ (∃ d, t.typeAt owner = .ok d) ∧
    t.addMethod m = (id, t'))
    (adds' : ∀ t id t', add' t = .ok (id, t') ↔ (∃ d, t.typeAt owner = .ok d) ∧
    t.addMethod m = (id, t'))
    (synthetic : m.isSynthetic = true ∧ m.parameterTypes = [] ∧ m.returnType = .void) :
    c.Steps (fun id => c.mask (some id)) (enter name span add)
      (Lowering.enter name' span' add') := by
  have grows : ∀ t : BindingTable, t.Grows (t.addMethod m).2 :=
    fun t => .addMethod t synthetic.1 synthetic.2.1 synthetic.2.2
  constructor
  · intro s id s₁ run
    obtain ⟨t₁, added, rfl⟩ := enter_eq_ok.mp run
    obtain ⟨-, added⟩ := (adds _ _ _).mp added
    obtain ⟨rfl, rfl⟩ := Prod.mk.inj added
    exact grows s.table
  · intro s id s₁ s' grown grown' run below room
    obtain ⟨t₁, added, rfl⟩ := enter_eq_ok.mp run
    obtain ⟨⟨d, found⟩, added⟩ := (adds _ _ _).mp added
    obtain ⟨rfl, rfl⟩ := Prod.mk.inj added
    have pushed : ∀ t : BindingTable, (t.addMethod m).2.methods.size = t.methods.size + 1 :=
      fun t => Array.size_push _
    have below : (s.table.addMethod m).2.methods.size ≤ c.high := below
    have room : s'.table.methods.size + (s.table.addMethod m).2.methods.size ≤
        s.table.methods.size + c.high := room
    rw [pushed] at below room
    have size := grown.size_le
    have size' := grown'.size_le
    have found' : s'.table.typeAt owner = .ok d := by
      rw [BindingTable.typeAt, grown'.sameTypes, ← grown.sameTypes]
      exact found
    -- Each run hands out the next number of its own table; both numbers are new, and the mask
    -- merges them.
    refine ⟨⟨s'.table.methods.size⟩, { s' with table := (s'.table.addMethod m).2 },
      enter_eq_ok.mpr ⟨_, (adds' _ _ _).mpr ⟨⟨d, found'⟩, rfl⟩, rfl⟩, ?_, grows s'.table, ?_⟩
    · exact c.merges _ _ size (by omega) size' (by omega)
    · refine ⟨[m], ?_, ?_⟩
      · exact Array.toList_push
      · exact Array.toList_push

end Steps

/-! ## Edits -/

namespace Edits

theorem keep {a b : α} (same : v a = v b) : c.Edits v (Edit.keep a) (Edit.keep b) := by
  refine Runs.of_table (fun run => ?_) fun _ _ run => ?_
  · rw [(Edit.keep_eq_done.mp run).2]
  · obtain ⟨rfl, rfl⟩ := Edit.keep_eq_done.mp run
    exact ⟨b, _, rfl, same, rfl⟩

/-- An edit that stops is followed by anything. -/
theorem stop {a : α} {e : Failure} {m' : Edit State Failure α} :
    c.Edits v (Edit.stop a e) m' :=
  ⟨fun run => absurd run Edit.stop_ne_done, fun _ _ run => absurd run Edit.stop_ne_done⟩

theorem map {m m' : Edit State Failure α} {F F' : α → β} (edits : c.Edits v m m')
    (same : ∀ a b, v a = v b → w (F a) = w (F' b)) :
    c.Edits w (m.map F) (m'.map F') :=
  (Runs.map edits same).congr (fun _ _ _ => Edit.map_eq_done) fun _ _ _ => Edit.map_eq_done

theorem andThen {m m' : Edit State Failure α} {whole whole' : α → β}
    {next next' : α → Edit State Failure β} (first : c.Edits v m m')
    (rest : ∀ a b, v a = v b → c.Edits w (next a) (next' b)) :
    c.Edits w (m.andThen whole next) (m'.andThen whole' next') :=
  (Runs.comp first rest).congr (fun _ _ _ => Edit.andThen_eq_done) fun _ _ _ => Edit.andThen_eq_done

theorem seq {m m' : Edit State Failure α} {next next' : α → Edit State Failure α} {w : α → δ}
    (first : c.Edits v m m') (rest : ∀ a b, v a = v b → c.Edits w (next a) (next' b)) :
    c.Edits w (m.seq next) (m'.seq next') := first.andThen rest

theorem editBy {left left' : α} {m m' : Step α} (steps : c.Steps v m m') :
    c.Edits v (editBy left m) (Lowering.editBy left' m') :=
  Runs.congr steps (fun _ _ _ => editBy_eq_done) fun _ _ _ => editBy_eq_done

/-- A computation that cannot fail and leaves the table alone. -/
theorem ofState {m m' : StateM State α} (kept : ∀ s, (m s).2.table = s.table)
    (kept' : ∀ s, (m' s).2.table = s.table) (same : ∀ s s', v (m s).1 = v (m' s').1) :
    c.Edits v (Edit.ofState m) (Edit.ofState m') := by
  refine Runs.of_table (fun {s a s₁} run => ?_) fun {s a s₁ s'} _ _ run => ?_
  · have table := kept s
    rw [Edit.ofState_eq_done.mp run] at table
    exact table
  · have looks := same s s'
    rw [Edit.ofState_eq_done.mp run] at looks
    exact ⟨(m' s').1, (m' s').2, Edit.ofState_eq_done.mpr rfl, looks, kept' s'⟩

/-- Lists of edits finish alike if the single edits do. -/
theorem list {F F' : α → Edit State Failure α} {as bs : List α}
    (edits : List.Forall₂ (fun a b => c.Edits v (F a) (F' b)) as bs) :
    c.Edits (List.map v) (Edit.list F as) (Edit.list F' bs) := by
  induction edits with
  | nil => exact .keep rfl
  | cons one _ ih =>
    refine .andThen one fun a b same => .map ih fun as bs all => ?_
    rw [List.map_cons, List.map_cons, same, all]

/-- A list of edits finishes alike in both runs if each of them does. -/
theorem list_self {F : α → Edit State Failure α} {as : List α}
    (edits : ∀ a ∈ as, c.Edits v (F a) (F a)) :
    c.Edits (List.map v) (Edit.list F as) (Edit.list F as) :=
  list (List.forall₂_same.mpr edits)

end Edits

end Comparison

end ClassInit.Lowering
