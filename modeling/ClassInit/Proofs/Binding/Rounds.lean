import ClassInit.Proofs.Binding.Candidates
import ClassInit.Proofs.Fold
import ClassInit.Proofs.Step

/-!
# Rounds of finding constants

A round gives values to candidates that have none, and changes nothing else. What one round
preserves, all rounds preserve: every candidate with a value has the value of its initializer, in
the table as it is by then (`Constants.Sound`).
-/

set_option autoImplicit false

namespace ClassInit

theorem VariableId.eq_of_index {v w : VariableId} (same : v.index = w.index) : v = w := by
  cases v
  cases w
  exact congrArg VariableId.mk same

namespace BindingTable

variable {t t' : BindingTable}

/-- Every constant of the first table is known to the second. -/
def KnowsMore (t t' : BindingTable) : Prop :=
  ∀ v k, t.variableConstant v = some k → t'.variableConstant v = some k

theorem KnowsMore.refl (t : BindingTable) : t.KnowsMore t := fun _ _ known => known

theorem KnowsMore.trans {a b c : BindingTable} (first : a.KnowsMore b) (second : b.KnowsMore c) :
    a.KnowsMore c := fun v k known => second v k (first v k known)

theorem KnowsMore.constantValue (more : t.KnowsMore t') {e : Expr} {k : Constant}
    (value : t.constantValue e = some k) : t'.constantValue e = some k :=
  Expr.foldAt_mono more e 0 k value

/-- Recording a constant changes the constant of one variable and no type. -/
theorem setConstant_spec {id : VariableId} {value : Constant}
    (set : t.setConstant id value = .ok t') :
    t'.types = t.types ∧ t'.vars.size = t.vars.size ∧
      t'.variableConstant id = some value ∧
      ∀ v, v ≠ id → t'.variableConstant v = t.variableConstant v := by
  obtain ⟨inRange, rfl⟩ := setConstant_eq_ok.mp set
  refine ⟨rfl, Array.size_modify, ?_, fun v different => ?_⟩
  · unfold variableConstant
    rw [Array.getElem?_modify, if_pos rfl, Array.getElem?_eq_getElem inRange]
    rfl
  · have index : id.index ≠ v.index := fun same => different (VariableId.eq_of_index same).symm
    unfold variableConstant
    rw [Array.getElem?_modify, if_neg index]

end BindingTable

namespace Constants

variable {t t' : BindingTable} {all : List Candidate}

theorem Candidate.value?_mono (more : t.KnowsMore t') {c : Candidate} {k : Constant}
    (value : c.value? t = some k) : c.value? t' = some k := by
  obtain ⟨folded, constant, converted⟩ := Option.bind_eq_some_iff.mp value
  rw [Candidate.value?, more.constantValue constant]
  exact converted

/-- Every candidate that has a value has the value of its initializer. -/
def Sound (all : List Candidate) (t : BindingTable) : Prop :=
  ∀ c ∈ all, ∀ k, t.variableConstant c.id = some k → c.value? t = some k

theorem Sound.of_unknown (unknown : ∀ c ∈ all, t.variableConstant c.id = none) : Sound all t := by
  intro c hc k known
  rw [unknown c hc] at known
  cases known

/-- What finding values changes from one table to another, when the given candidates are tried. -/
structure Finds (tried : List Candidate) (t t' : BindingTable) : Prop where
  types : t'.types = t.types
  size : t'.vars.size = t.vars.size
  more : t.KnowsMore t'
  others : ∀ v, (∀ c ∈ tried, c.id ≠ v) → t'.variableConstant v = t.variableConstant v

theorem Finds.refl (tried : List Candidate) (t : BindingTable) : Finds tried t t :=
  ⟨rfl, rfl, .refl t, fun _ _ => rfl⟩

theorem Finds.trans {tried : List Candidate} {a b c : BindingTable} (first : Finds tried a b)
    (second : Finds tried b c) : Finds tried a c :=
  ⟨second.types.trans first.types, second.size.trans first.size, first.more.trans second.more,
    fun v untried => (second.others v untried).trans (first.others v untried)⟩

theorem Finds.of_subset {tried tried' : List Candidate} (subset : ∀ c ∈ tried, c ∈ tried')
    (finds : Finds tried t t') : Finds tried' t t' :=
  ⟨finds.types, finds.size, finds.more,
    fun v untried => finds.others v fun c hc => untried c (subset c hc)⟩

/-- The candidates that are still to be tried: different ones without a value. -/
structure Waiting (all : List Candidate) (t : BindingTable) (pending : List Candidate) : Prop where
  candidates : ∀ c ∈ pending, c ∈ all
  distinct : (pending.map (·.id)).Nodup
  unknown : ∀ c ∈ pending, t.variableConstant c.id = none

namespace Waiting

variable {c : Candidate} {cs left : List Candidate}

theorem tail (waiting : Waiting all t (c :: cs)) : Waiting all t cs :=
  ⟨fun c' hc' => waiting.candidates c' (List.mem_cons_of_mem _ hc'),
    (List.nodup_cons.mp waiting.distinct).2,
    fun c' hc' => waiting.unknown c' (List.mem_cons_of_mem _ hc')⟩

theorem ne_head (waiting : Waiting all t (c :: cs)) : ∀ c' ∈ cs, c'.id ≠ c.id := by
  intro c' hc' same
  exact (List.nodup_cons.mp waiting.distinct).1 (List.mem_map.mpr ⟨c', hc', same⟩)

/-- Candidates that were not tried wait as before. -/
theorem untried {tried : List Candidate} (waiting : Waiting all t left) (finds : Finds tried t t')
    (others : ∀ c ∈ tried, ∀ c' ∈ left, c.id ≠ c'.id) : Waiting all t' left := by
  refine ⟨waiting.candidates, waiting.distinct, fun c' hc' => ?_⟩
  rw [finds.others c'.id fun c hc => others c hc c' hc']
  exact waiting.unknown c' hc'

/-- The first candidate is left as well if it has no value yet. -/
theorem cons_left (waiting : Waiting all t (c :: cs)) (finds : Finds cs t t')
    (waiting' : Waiting all t' left) (sublist : left.Sublist cs) : Waiting all t' (c :: left) := by
  refine ⟨?_, ?_, ?_⟩
  · intro c' hc'
    rcases List.mem_cons.mp hc' with rfl | hc'
    · exact waiting.candidates _ List.mem_cons_self
    · exact waiting'.candidates c' hc'
  · refine List.nodup_cons.mpr ⟨fun inLeft => ?_, waiting'.distinct⟩
    exact (List.nodup_cons.mp waiting.distinct).1 ((sublist.map _).subset inLeft)
  · intro c' hc'
    rcases List.mem_cons.mp hc' with rfl | hc'
    · rw [finds.others _ waiting.ne_head]
      exact waiting.unknown _ List.mem_cons_self
    · exact waiting'.unknown c' hc'

end Waiting

/-- Recording the value of a candidate that had none. -/
theorem Sound.setConstant (unique : (all.map (·.id)).Nodup) (sound : Sound all t) {c : Candidate}
    (hc : c ∈ all) {value : Constant} (found : c.value? t = some value)
    (unknown : t.variableConstant c.id = none) (set : t.setConstant c.id value = .ok t') :
    Sound all t' ∧ Finds [c] t t' := by
  obtain ⟨types, size, own, others⟩ := BindingTable.setConstant_spec set
  have more : t.KnowsMore t' := by
    intro v k known
    by_cases same : v = c.id
    · rw [same, unknown] at known
      cases known
    · rw [others v same]
      exact known
  refine ⟨fun c' hc' k known => ?_, types, size, more, fun v untried => ?_⟩
  · -- Handles tell the candidates apart, so that only the one constant is new.
    by_cases same : c'.id = c.id
    · obtain rfl := List.inj_on_of_nodup_map unique hc' hc same
      rw [own] at known
      cases known
      exact Candidate.value?_mono more found
    · rw [others _ same] at known
      exact Candidate.value?_mono more (sound c' hc' k known)
  · exact others v fun same => untried c (List.mem_singleton.mpr rfl) same.symm

/-- A round leaves its first candidate if that has no value, and records the value otherwise. -/
theorem round_cons_ok {c : Candidate} {cs left : List Candidate}
    (run : (round (c :: cs)).run t = (.ok left, t')) :
    (c.value? t = none ∧ ∃ left', left = c :: left' ∧ (round cs).run t = (.ok left', t')) ∨
      ∃ k t₁, c.value? t = some k ∧ t.setConstant c.id k = .ok t₁ ∧
      (round cs).run t₁ = (.ok left, t') := by
  rw [round] at run
  obtain ⟨t₁, t₂, got, run⟩ := Step.bind_eq_ok.mp run
  obtain ⟨rfl, rfl⟩ := Step.get_eq_ok.mp got
  split at run
  · rename_i unknown
    obtain ⟨left', t₃, inner, result⟩ := Step.bind_eq_ok.mp run
    obtain ⟨rfl, rfl⟩ := Step.pure_eq_ok.mp result
    exact .inl ⟨unknown, left', rfl, inner⟩
  · rename_i value found
    obtain ⟨t₁, t₂, got, run⟩ := Step.bind_eq_ok.mp run
    obtain ⟨rfl, rfl⟩ := Step.get_eq_ok.mp got
    split at run
    · exact absurd run Step.throw_ne_ok
    · rename_i t₃ set
      obtain ⟨u, t₄, stored, run⟩ := Step.bind_eq_ok.mp run
      obtain rfl := Step.set_eq_ok.mp stored
      exact .inr ⟨value, t₃, found, set, run⟩

/-- Rounds end after the first that leaves all that it was given. -/
theorem rounds_succ_ok {n : Nat} {pending left : List Candidate}
    (run : (rounds (n + 1) pending).run t = (.ok left, t')) :
    ∃ left₁ t₁, (round pending).run t = (.ok left₁, t₁) ∧
      ((left₁.length = pending.length ∧ left₁ = left ∧ t₁ = t') ∨
        (left₁.length ≠ pending.length ∧ (rounds n left₁).run t₁ = (.ok left, t'))) := by
  rw [rounds] at run
  obtain ⟨left₁, t₁, first, run⟩ := Step.bind_eq_ok.mp run
  refine ⟨left₁, t₁, first, ?_⟩
  split at run
  · rename_i stays
    obtain ⟨rfl, rfl⟩ := Step.pure_eq_ok.mp run
    exact .inl ⟨stays, rfl, rfl⟩
  · rename_i shorter
    exact .inr ⟨shorter, run⟩

/-- Recording the value of the first candidate that waits. -/
theorem Waiting.record (unique : (all.map (·.id)).Nodup) (sound : Sound all t) {c : Candidate}
    {cs : List Candidate} (waiting : Waiting all t (c :: cs)) {value : Constant}
    (found : c.value? t = some value) (set : t.setConstant c.id value = .ok t') :
    Sound all t' ∧ Finds [c] t t' ∧ Waiting all t' cs := by
  obtain ⟨sound', finds⟩ := sound.setConstant unique (waiting.candidates c List.mem_cons_self) found
    (waiting.unknown c List.mem_cons_self) set
  refine ⟨sound', finds, waiting.tail.untried finds fun c'' hc'' c' hc' => ?_⟩
  rw [List.mem_singleton.mp hc'']
  exact (waiting.ne_head c' hc').symm

theorem round_sublist {pending left : List Candidate}
    (run : (round pending).run t = (.ok left, t')) :
    left.Sublist pending := by
  induction pending generalizing t left with
  | nil =>
    obtain ⟨rfl, -⟩ := Step.pure_eq_ok.mp run
    exact .refl _
  | cons c cs ih =>
    rcases round_cons_ok run with ⟨-, left', rfl, inner⟩ | ⟨_, _, -, -, inner⟩
    · exact (ih inner).cons_cons _
    · exact (ih inner).cons _

/-- One round. -/
theorem round_ok (unique : (all.map (·.id)).Nodup) {pending left : List Candidate}
    (sound : Sound all t) (waiting : Waiting all t pending)
    (run : (round pending).run t = (.ok left, t')) :
    Sound all t' ∧ Finds pending t t' ∧ Waiting all t' left := by
  induction pending generalizing t left with
  | nil =>
    obtain ⟨rfl, rfl⟩ := Step.pure_eq_ok.mp run
    exact ⟨sound, .refl _ _, waiting⟩
  | cons c cs ih =>
    have rest : ∀ c' ∈ cs, c' ∈ c :: cs := fun c' hc' => List.mem_cons_of_mem _ hc'
    rcases round_cons_ok run with ⟨-, left', rfl, inner⟩ | ⟨value, t₁, found, set, inner⟩
    · -- The candidate has no value yet and is left.
      obtain ⟨sound', finds, waiting'⟩ := ih sound waiting.tail inner
      exact ⟨sound', finds.of_subset rest, waiting.cons_left finds waiting' (round_sublist inner)⟩
    · -- The value is recorded.
      obtain ⟨sound₁, finds₁, waiting₁⟩ := waiting.record unique sound found set
      obtain ⟨sound', finds, waiting'⟩ := ih sound₁ waiting₁ inner
      refine ⟨sound', ?_, waiting'⟩
      refine (finds₁.of_subset fun c' hc' => ?_).trans (finds.of_subset rest)
      rw [List.mem_singleton.mp hc']
      exact List.mem_cons_self

/-- All rounds. -/
theorem rounds_ok (unique : (all.map (·.id)).Nodup) {n : Nat} {pending left : List Candidate}
    (sound : Sound all t) (waiting : Waiting all t pending)
    (run : (rounds n pending).run t = (.ok left, t')) :
    Sound all t' ∧ Finds pending t t' := by
  induction n generalizing pending t with
  | zero =>
    obtain ⟨rfl, rfl⟩ := Step.pure_eq_ok.mp run
    exact ⟨sound, .refl _ _⟩
  | succ n ih =>
    obtain ⟨left₁, t₁, first, run⟩ := rounds_succ_ok run
    obtain ⟨sound₁, finds, waiting₁⟩ := round_ok unique sound waiting first
    rcases run with ⟨-, rfl, rfl⟩ | ⟨-, run⟩
    · exact ⟨sound₁, finds⟩
    · obtain ⟨sound', finds'⟩ := ih sound₁ waiting₁ run
      exact ⟨sound', finds.trans (finds'.of_subset fun c hc => (round_sublist first).subset hc)⟩

end Constants

end ClassInit
