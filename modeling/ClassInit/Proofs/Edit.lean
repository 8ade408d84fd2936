import Mathlib.Algebra.GroupWithZero.Nat
import Mathlib.Data.List.Forall2
import ClassInit.Edit

/-!
# Finished edits

An edit that finished did so in every part: the lemmas here take `(.done b, s')` apart, one for each
combinator. `Edit.forall₂_of_done` turns what a single edit does into what a list of edits does.
-/

set_option autoImplicit false

namespace ClassInit

/-! ## Lists -/

/-- An item of the second of two related lists comes from an item of the first. -/
theorem exists_mem_left {α β : Type} {R : α → β → Prop} {as : List α} {bs : List β}
    (related : List.Forall₂ R as bs) {b : β} (hb : b ∈ bs) : ∃ a ∈ as, R a b := by
  induction related with
  | nil => exact absurd hb List.not_mem_nil
  | cons one rest ih =>
    rcases List.mem_cons.mp hb with rfl | hb
    · exact ⟨_, List.mem_cons_self, one⟩
    · obtain ⟨a, ha, h⟩ := ih hb
      exact ⟨a, List.mem_cons_of_mem _ ha, h⟩

/-- An item of the first of two related lists goes to an item of the second. -/
theorem exists_mem_right {α β : Type} {R : α → β → Prop} {as : List α} {bs : List β}
    (related : List.Forall₂ R as bs) {a : α} (ha : a ∈ as) : ∃ b ∈ bs, R a b :=
  exists_mem_left related.flip ha

/-- An item of the first list is related to the one at its place in the second. -/
theorem getElem?_of_forall₂ {α β : Type} {R : α → β → Prop} {as : List α} {bs : List β}
    (related : List.Forall₂ R as bs) {k : Nat} {a : α} (at_k : as[k]? = some a) :
    ∃ b, bs[k]? = some b ∧ R a b := by
  induction related generalizing k with
  | nil => cases at_k
  | cons one _ ih =>
    cases k with
    | zero =>
      cases at_k
      exact ⟨_, rfl, one⟩
    | succ k => exact ih at_k

/-- Lists whose items agree in something agree in it as a whole. -/
theorem map_eq_of_forall₂ {α β γ : Type} {f : α → γ} {g : β → γ} {as : List α} {bs : List β}
    (related : List.Forall₂ (fun a b => g b = f a) as bs) : bs.map g = as.map f := by
  induction related with
  | nil => rfl
  | cons one _ ih => rw [List.map_cons, List.map_cons, one, ih]

/-- Lists that are related through a third. -/
theorem forall₂_trans {α β γ : Type} {R : α → β → Prop} {S : β → γ → Prop} {T : α → γ → Prop}
    (compose : ∀ a b c, R a b → S b c → T a c) {as : List α} {bs : List β} {cs : List γ}
    (first : List.Forall₂ R as bs) (second : List.Forall₂ S bs cs) : List.Forall₂ T as cs := by
  induction first generalizing cs with
  | nil =>
    cases second
    exact .nil
  | cons one _ ih =>
    obtain _ | ⟨other, rest⟩ := second
    exact .cons (compose _ _ _ one other) (ih rest)

/-- Lists that are related to the same list are related to it item by item together. -/
theorem forall₂_zip {α β γ : Type} {R : α → β → Prop} {S : α → γ → Prop} {T : α → β × γ → Prop}
    {as : List α} {bs : List β} {cs : List γ} (first : List.Forall₂ R as bs)
    (second : List.Forall₂ S as cs) (both : ∀ a b c, R a b → S a c → T a (b, c)) :
    List.Forall₂ T as (bs.zip cs) := by
  induction first generalizing cs with
  | nil => exact .nil
  | cons one _ ih =>
    obtain _ | ⟨other, rest⟩ := second
    exact .cons (both _ _ _ one other) (ih rest)

/-- Items with one key are one item, if all keys are different. -/
theorem eq_of_nodup_keys {α β : Type} {key : α → Option β} {as : List α}
    (distinct : (as.filterMap key).Nodup) {a b : α} {k : β} (ha : a ∈ as) (hb : b ∈ as)
    (keyA : key a = some k) (keyB : key b = some k) : a = b := by
  induction as with
  | nil => exact absurd ha List.not_mem_nil
  | cons c as ih =>
    have later : ∀ d ∈ as, key d = some k → k ∈ as.filterMap key :=
      fun d hd keyD => List.mem_filterMap.mpr ⟨d, hd, keyD⟩
    rcases List.mem_cons.mp ha with rfl | ha'
    · rcases List.mem_cons.mp hb with rfl | hb'
      · rfl
      · rw [List.filterMap_cons_some keyA] at distinct
        exact absurd (later b hb' keyB) (List.nodup_cons.mp distinct).1
    · rcases List.mem_cons.mp hb with rfl | hb'
      · rw [List.filterMap_cons_some keyB] at distinct
        exact absurd (later a ha' keyA) (List.nodup_cons.mp distinct).1
      · refine ih ?_ ha' hb'
        rw [List.filterMap_cons] at distinct
        split at distinct
        · exact distinct
        · exact (List.nodup_cons.mp distinct).2

namespace Edit

variable {σ ε α β : Type}

/-! ## Equations -/

@[simp] theorem map_map {γ : Type} {f : α → β} {g : β → γ} {m : Edit σ ε α} :
    (m.map f).map g = m.map fun a => g (f a) := by
  funext s
  unfold map
  rcases m s with ⟨⟨a⟩ | ⟨a, e⟩, s'⟩ <;> rfl

@[simp] theorem map_andThen {γ : Type} {whole : α → β} {next : α → Edit σ ε β} {g : β → γ}
    {m : Edit σ ε α} :
    (m.andThen whole next).map g = m.andThen (fun a => g (whole a)) fun a => (next a).map g := by
  funext s
  unfold map andThen
  rcases m s with ⟨⟨a⟩ | ⟨a, e⟩, s'⟩ <;> rfl

@[simp] theorem andThen_map {γ : Type} {f : α → β} {whole : β → γ} {next : β → Edit σ ε γ}
    {m : Edit σ ε α} :
    (m.map f).andThen whole next = m.andThen (fun a => whole (f a)) fun a => next (f a) := by
  funext s
  simp only [map, andThen]
  rcases m s with ⟨⟨a⟩ | ⟨a, e⟩, s'⟩ <;> rfl

@[simp] theorem andThen_assoc {γ : Type} {whole : α → β} {next : α → Edit σ ε β} {whole' : β → γ}
    {next' : β → Edit σ ε γ} {m : Edit σ ε α} :
    (m.andThen whole next).andThen whole' next' =
      m.andThen (fun a => whole' (whole a)) fun a => (next a).andThen whole' next' := by
  funext s
  simp only [andThen]
  rcases m s with ⟨⟨a⟩ | ⟨a, e⟩, s'⟩ <;> rfl

@[simp] theorem list_singleton {f : α → Edit σ ε α} {a : α} :
    list f [a] = (f a).map fun b => [b] := by
  funext s
  simp only [list, andThen, map, keep]
  rcases f a s with ⟨⟨b⟩ | ⟨b, e⟩, s'⟩ <;> rfl

/-- Editing the concatenation of two lists is editing one after the other. -/
@[simp] theorem list_append {f : α → Edit σ ε α} {as bs : List α} :
    list f (as ++ bs) =
      (list f as).andThen (· ++ bs) fun as' => (list f bs).map (as' ++ ·) := by
  induction as with
  | nil =>
    funext s
    show list f bs s = ((list f bs).map ([] ++ ·)) s
    unfold map
    rcases list f bs s with ⟨⟨cs⟩ | ⟨cs, e⟩, s'⟩ <;> rfl
  | cons a as ih =>
    rw [List.cons_append, list, list, ih, andThen_assoc]
    congr 1
    funext b
    rw [andThen_map, map_andThen]
    congr 1
    funext cs
    rw [map_map]
    rfl

/-- Editing what the items of a list consist of, item by item, is editing the list of all their
parts. -/
theorem map_list_flatMap {e : β → Edit σ ε β} {parts : β → List α} {f : α → Edit σ ε α}
    (single : ∀ b, (e b).map parts = list f (parts b)) (bs : List β) :
    (list e bs).map (List.flatMap parts) = list f (bs.flatMap parts) := by
  induction bs with
  | nil => rfl
  | cons b bs ih =>
    simp only [list, List.flatMap_cons, map_andThen, map_map, list_append, ← ih, ← single b,
      andThen_map]

/-! ## Taking finished edits apart -/

/-- An edit that keeps a value is done with it at once. -/
theorem keep_eq_done {a b : α} {s s' : σ} :
    (keep a : Edit σ ε α) s = (.done b, s') ↔ a = b ∧ s = s' := by
  simp [keep]

theorem stop_ne_done {a b : α} {e : ε} {s s' : σ} :
    (stop a e : Edit σ ε α) s ≠ (.done b, s') := by
  simp [stop]

theorem ofState_eq_done {m : StateM σ α} {b : α} {s s' : σ} :
    (ofState m : Edit σ ε α) s = (.done b, s') ↔ m s = (b, s') := by
  show ((Outcome.done (m s).1, (m s).2) : Outcome ε α × σ) = (.done b, s') ↔ m s = (b, s')
  rw [Prod.ext_iff, Prod.ext_iff]
  simp

theorem map_eq_done {f : α → β} {m : Edit σ ε α} {b : β} {s s' : σ} :
    m.map f s = (.done b, s') ↔ ∃ a, m s = (.done a, s') ∧ f a = b := by
  unfold map
  rcases m s with ⟨⟨a⟩ | ⟨a, e⟩, s₁⟩
  · simp [Outcome.map, and_comm]
  · simp [Outcome.map]

/-- What is seen of a finished edit is what the edit of that part finishes with. -/
theorem done_of_map {m : Edit σ ε α} {g : α → β} {part : Edit σ ε β} (same : m.map g = part) {a : α}
    {s s' : σ} (run : m s = (.done a, s')) : part s = (.done (g a), s') := by
  rw [← same]
  exact map_eq_done.mpr ⟨a, run, rfl⟩

/-- Two edits are done one after the other just if each is. -/
theorem andThen_eq_done {m : Edit σ ε α} {whole : α → β} {next : α → Edit σ ε β} {b : β}
    {s s' : σ} :
    m.andThen whole next s = (.done b, s') ↔
      ∃ a s₁, m s = (.done a, s₁) ∧ next a s₁ = (.done b, s') := by
  unfold andThen
  rcases m s with ⟨⟨a⟩ | ⟨a, e⟩, s₁⟩
  · simp
  · simp

theorem seq_eq_done {m : Edit σ ε α} {next : α → Edit σ ε α} {b : α} {s s' : σ} :
    m.seq next s = (.done b, s') ↔
      ∃ a s₁, m s = (.done a, s₁) ∧ next a s₁ = (.done b, s') :=
  andThen_eq_done

theorem list_nil_eq_done {f : α → Edit σ ε α} {bs : List α} {s s' : σ} :
    list f [] s = (.done bs, s') ↔ bs = [] ∧ s = s' := by
  rw [list, keep_eq_done, eq_comm]

/-- A list is edited item by item. -/
theorem list_cons_eq_done {f : α → Edit σ ε α} {a : α} {as bs : List α} {s s' : σ} :
    list f (a :: as) s = (.done bs, s') ↔
      ∃ b s₁ bs', f a s = (.done b, s₁) ∧ list f as s₁ = (.done bs', s') ∧ b :: bs' = bs := by
  simp only [list, andThen_eq_done, map_eq_done]
  constructor
  · rintro ⟨b, s₁, hb, bs', hbs, rfl⟩
    exact ⟨b, s₁, bs', hb, hbs, rfl⟩
  · rintro ⟨b, s₁, bs', hb, hbs, rfl⟩
    exact ⟨b, s₁, hb, bs', hbs, rfl⟩

/-- Editing two lists one after the other is editing their concatenation. -/
theorem list_append_done {f : α → Edit σ ε α} {as bs as' bs' : List α} {s s₁ s' : σ}
    (first : list f as s = (.done as', s₁)) (second : list f bs s₁ = (.done bs', s')) :
    list f (as ++ bs) s = (.done (as' ++ bs'), s') := by
  induction as generalizing as' s with
  | nil =>
    obtain ⟨rfl, rfl⟩ := list_nil_eq_done.mp first
    exact second
  | cons a as ih =>
    obtain ⟨b, s₂, cs, hb, hcs, rfl⟩ := list_cons_eq_done.mp first
    exact list_cons_eq_done.mpr ⟨b, s₂, cs ++ bs', hb, ih hcs, rfl⟩

/-- Each item is related to its result by whatever a single edit guarantees. -/
theorem forall₂_of_done {f : α → Edit σ ε α} {R : α → α → Prop}
    (step : ∀ a b s s', f a s = (.done b, s') → R a b) {as bs : List α} {s s' : σ}
    (run : list f as s = (.done bs, s')) : List.Forall₂ R as bs := by
  induction as generalizing bs s with
  | nil =>
    obtain ⟨rfl, -⟩ := list_nil_eq_done.mp run
    exact .nil
  | cons a as ih =>
    obtain ⟨b, s₁, cs, hb, hcs, rfl⟩ := list_cons_eq_done.mp run
    exact .cons (step a b s s₁ hb) (ih hcs)

/-! ## What any edit does to the state -/

/-- The edit moves the state along a relation, whether it finishes or stops. -/
def Moves (R : σ → σ → Prop) (m : Edit σ ε α) : Prop := ∀ s, R s (m s).2

section

variable {R : σ → σ → Prop}

/-- What one run does to the state. -/
theorem Moves.run {m : Edit σ ε α} (h : m.Moves R) {s s' : σ} {o : Outcome ε α}
    (run : m s = (o, s')) : R s s' := by
  have moved := h s
  rw [run] at moved
  exact moved

theorem Moves.imp {m : Edit σ ε α} {R' : σ → σ → Prop} (h : m.Moves R)
    (imp : ∀ s s', R s s' → R' s s') : m.Moves R' := fun s => imp _ _ (h s)

theorem Moves.keep (refl : ∀ s, R s s) (a : α) : (keep a : Edit σ ε α).Moves R := refl

theorem Moves.stop (refl : ∀ s, R s s) (a : α) (e : ε) : (stop a e : Edit σ ε α).Moves R := refl

theorem Moves.map {m : Edit σ ε α} (h : m.Moves R) (f : α → β) : (m.map f).Moves R := h

theorem Moves.of_map {m : Edit σ ε α} {f : α → β} (h : (m.map f).Moves R) : m.Moves R := h

/-- Two edits move the state as a relation says if each does and the relation is transitive. -/
theorem Moves.andThen (trans : ∀ a b c, R a b → R b c → R a c) {m : Edit σ ε α}
    {whole : α → β} {next : α → Edit σ ε β} (h : m.Moves R) (hnext : ∀ a, (next a).Moves R) :
    (m.andThen whole next).Moves R := by
  intro s
  have first := h s
  unfold Edit.andThen
  rcases hm : m s with ⟨⟨a⟩ | ⟨a, e⟩, s₁⟩
  · rw [hm] at first
    exact trans _ _ _ first (hnext a s₁)
  · rw [hm] at first
    exact first

/-- So does an edit of a list. -/
theorem Moves.list (refl : ∀ s, R s s) (trans : ∀ a b c, R a b → R b c → R a c)
    {f : α → Edit σ ε α} {as : List α} (h : ∀ a ∈ as, (f a).Moves R) :
    (Edit.list f as).Moves R := by
  induction as with
  | nil => exact Moves.keep refl []
  | cons a as ih =>
    refine Moves.andThen trans (h a List.mem_cons_self) fun b => ?_
    exact (ih fun c hc => h c (List.mem_cons_of_mem _ hc)).map _

/-- Every item of the result of a list of edits is what the edit made of the item in its place, at
some point of the run. -/
theorem forall₂_steps_of_done (refl : ∀ s, R s s) (trans : ∀ a b c, R a b → R b c → R a c)
    {f : α → Edit σ ε α} (moves : ∀ a b s s', f a s = (.done b, s') → R s s') {as bs : List α}
    {s s' : σ} (run : Edit.list f as s = (.done bs, s')) :
    R s s' ∧
      List.Forall₂ (fun a b => ∃ s₁ s₂, R s s₁ ∧ f a s₁ = (.done b, s₂) ∧ R s₂ s') as bs := by
  induction as generalizing bs s with
  | nil =>
    obtain ⟨rfl, rfl⟩ := list_nil_eq_done.mp run
    exact ⟨refl s, .nil⟩
  | cons a as ih =>
    obtain ⟨c, s₁, cs, hc, hcs, rfl⟩ := list_cons_eq_done.mp run
    obtain ⟨rest, steps⟩ := ih hcs
    have first := moves a c s s₁ hc
    refine ⟨trans _ _ _ first rest, .cons ⟨s, s₁, refl s, hc, rest⟩ (steps.imp ?_)⟩
    rintro a' b ⟨s₂, s₃, before, step, after⟩
    exact ⟨s₂, s₃, trans _ _ _ first before, step, after⟩

/-- An item of an edited list comes from an item before, at a state on the way. -/
theorem exists_done_of_mem (refl : ∀ s, R s s) (trans : ∀ a b c, R a b → R b c → R a c)
    {f : α → Edit σ ε α} (moves : ∀ a b s s', f a s = (.done b, s') → R s s') {as bs : List α}
    {s s' : σ} (run : Edit.list f as s = (.done bs, s')) :
    R s s' ∧ ∀ b ∈ bs, ∃ a ∈ as, ∃ s₁ s₂, R s s₁ ∧ f a s₁ = (.done b, s₂) ∧ R s₂ s' := by
  obtain ⟨whole, steps⟩ := forall₂_steps_of_done refl trans moves run
  exact ⟨whole, fun _ hb => exists_mem_left steps hb⟩

/-- An item of the list of edits was edited at some point of the run. -/
theorem exists_run_of_mem (refl : ∀ s, R s s) (trans : ∀ a b c, R a b → R b c → R a c)
    {f : α → Edit σ ε α} (moves : ∀ a, (f a).Moves R) {as bs : List α} {s s' : σ}
    (run : Edit.list f as s = (.done bs, s')) {a : α} (ha : a ∈ as) :
    ∃ b s₁ s₂, R s s₁ ∧ f a s₁ = (.done b, s₂) ∧ R s₂ s' := by
  obtain ⟨-, steps⟩ := forall₂_steps_of_done refl trans (fun a _ _ _ run => (moves a).run run) run
  obtain ⟨b, -, step⟩ := exists_mem_right steps ha
  exact ⟨b, step⟩

theorem exists_step_of_mem (refl : ∀ s, R s s) (trans : ∀ a b c, R a b → R b c → R a c)
    {f : α → Edit σ ε α} (moves : ∀ a, (f a).Moves R) {as bs : List α} {s s' : σ}
    (run : Edit.list f as s = (.done bs, s')) {b : α} (hb : b ∈ bs) :
    ∃ a ∈ as, ∃ s₁ s₂, R s s₁ ∧ f a s₁ = (.done b, s₂) ∧ R s₂ s' :=
  (exists_done_of_mem refl trans (fun a _ _ _ run => (moves a).run run) run).2 b hb

end

/-! ## What stays whatever happens -/

/-- The value that the edit leaves, finished or not, is as `Q` says. -/
def Leaves (Q : α → Prop) (m : Edit σ ε α) : Prop := ∀ s, Q (m s).1.value

theorem Leaves.of_done {Q : α → Prop} {m : Edit σ ε α} (h : m.Leaves Q) {s s' : σ} {a : α}
    (run : m s = (.done a, s')) : Q a := by
  have holds := h s
  rw [run] at holds
  exact holds

theorem Leaves.keep {Q : α → Prop} {a : α} (holds : Q a) : (keep a : Edit σ ε α).Leaves Q :=
  fun _ => holds

theorem Leaves.map {P : α → Prop} {Q : β → Prop} {m : Edit σ ε α} {f : α → β} (part : m.Leaves P)
    (whole : ∀ a, P a → Q (f a)) : (m.map f).Leaves Q := by
  intro s
  have holds := part s
  unfold Edit.map
  rcases run : m s with ⟨a | ⟨a, e⟩, s'⟩ <;> (rw [run] at holds; exact whole a holds)

/-- What stays whether the first edit stops or the second goes on. -/
theorem Leaves.andThen {P : α → Prop} {Q : β → Prop} {m : Edit σ ε α} {whole : α → β}
    {next : α → Edit σ ε β} (part : m.Leaves P) (stopped : ∀ a, P a → Q (whole a))
    (rest : ∀ a, P a → (next a).Leaves Q) :
    (m.andThen whole next).Leaves Q := by
  intro s
  have holds := part s
  unfold Edit.andThen
  rcases run : m s with ⟨a | ⟨a, e⟩, s'⟩ <;> rw [run] at holds
  · exact rest a holds s'
  · exact stopped a holds

/-- An edit of a list leaves its items related one by one, where an edit that stops has not changed
the rest. -/
theorem Leaves.list {R : α → α → Prop} {f : α → Edit σ ε α}
    (single : ∀ a, (f a).Leaves fun b => R a b) (refl : ∀ a, R a a) (as : List α) :
    (Edit.list f as).Leaves fun bs => List.Forall₂ R as bs := by
  induction as with
  | nil => exact Leaves.keep .nil
  | cons a as ih =>
    refine (single a).andThen (fun b one => .cons one (List.forall₂_same.mpr fun c _ => refl c))
      fun b one => ?_
    exact ih.map fun bs rest => .cons one rest

/-! ## What a list of edits adds up to -/

/-- A way to count what happens to a state: nothing counts zero, and one thing after another adds
up. -/
structure Tally (Adds : Nat → σ → σ → Prop) : Prop where
  zero : ∀ s, Adds 0 s s
  add : ∀ {m n a b c}, Adds m a b → Adds n b c → Adds (m + n) a c

/-- A list of edits adds the sum of what the single edits add. -/
theorem list_adds {Adds : Nat → σ → σ → Prop} (tally : Tally Adds) {f : α → Edit σ ε α}
    {own : α → Nat} (Inv : σ → Prop)
    (step : ∀ a b s s', Inv s → f a s = (.done b, s') → Inv s' ∧ Adds (own a) s s') {as bs : List α}
    {s s' : σ} (start : Inv s) (run : list f as s = (.done bs, s')) :
    Adds (as.map own).sum s s' := by
  induction as generalizing bs s with
  | nil =>
    obtain ⟨rfl, rfl⟩ := list_nil_eq_done.mp run
    exact tally.zero s
  | cons a as ih =>
    obtain ⟨b, s₁, cs, hb, hcs, rfl⟩ := list_cons_eq_done.mp run
    obtain ⟨inv, added⟩ := step a b s s₁ start hb
    rw [List.map_cons, List.sum_cons]
    exact tally.add added (ih inv hcs)

/-! ## Edits that finish with a known value -/

/-- The edit finishes with the value and keeps what holds of the state. -/
def Returns (P : σ → Prop) (m : Edit σ ε α) (a : α) : Prop :=
  ∀ s, P s → ∃ s', m s = (.done a, s') ∧ P s'

section

variable {P : σ → Prop}

theorem Returns.keep (a : α) : (keep a : Edit σ ε α).Returns P a := fun s holds => ⟨s, rfl, holds⟩

theorem Returns.map {m : Edit σ ε α} {a : α} (h : m.Returns P a) (f : α → β) :
    (m.map f).Returns P (f a) := by
  intro s holds
  obtain ⟨s', run, holds'⟩ := h s holds
  exact ⟨s', map_eq_done.mpr ⟨a, run, rfl⟩, holds'⟩

/-- Two edits with known values have the value of the second. -/
theorem Returns.andThen {m : Edit σ ε α} {whole : α → β} {next : α → Edit σ ε β} {a : α} {b : β}
    (h : m.Returns P a) (hnext : (next a).Returns P b) : (m.andThen whole next).Returns P b := by
  intro s holds
  obtain ⟨s₁, run, holds₁⟩ := h s holds
  obtain ⟨s', run', holds'⟩ := hnext s₁ holds₁
  exact ⟨s', andThen_eq_done.mpr ⟨a, s₁, run, run'⟩, holds'⟩

theorem Returns.seq {m : Edit σ ε α} {next : α → Edit σ ε α} {a b : α} (h : m.Returns P a)
    (hnext : (next a).Returns P b) : (m.seq next).Returns P b := h.andThen hnext

/-- A list of items that stay as they are stays as it is. -/
theorem Returns.list {f : α → Edit σ ε α} {as : List α} (h : ∀ a ∈ as, (f a).Returns P a) :
    (Edit.list f as).Returns P as := by
  induction as with
  | nil => exact Returns.keep []
  | cons a as ih =>
    refine (h a List.mem_cons_self).andThen ?_
    exact (ih fun b hb => h b (List.mem_cons_of_mem _ hb)).map _

end

/-! ## How edits end -/

/-- In a state in which `P` holds the edit either finishes, with a value as `Q` says and in a state
in which `P` holds again, or stops with an error as `E` says. -/
def Ends (P : σ → Prop) (m : Edit σ ε α) (Q : α → Prop) (E : ε → Prop) : Prop :=
  ∀ s, P s → match m s with
    | (.done a, s') => Q a ∧ P s'
    | (.stopped _ e, _) => E e

section

variable {P : σ → Prop} {Q : α → Prop} {E : ε → Prop}

/-- What holds of every finished edit holds of one. -/
theorem Ends.of_done {m : Edit σ ε α} (h : m.Ends P Q E) {s s' : σ} {a : α} (holds : P s)
    (run : m s = (.done a, s')) : Q a ∧ P s' := by
  have ended := h s holds
  rw [run] at ended
  exact ended

theorem Ends.of_stopped {m : Edit σ ε α} (h : m.Ends P Q E) {s s' : σ} {a : α} {e : ε} (holds : P s)
    (run : m s = (.stopped a e, s')) : E e := by
  have ended := h s holds
  rw [run] at ended
  exact ended

theorem Ends.keep {a : α} (h : Q a) : (keep a : Edit σ ε α).Ends P Q E := fun _ holds => ⟨h, holds⟩

theorem Ends.stop {a : α} {e : ε} (h : E e) : (stop a e : Edit σ ε α).Ends P Q E := fun _ _ => h

theorem Ends.ofState {m : StateM σ α} (h : ∀ s, P s → Q (m s).1 ∧ P (m s).2) :
    (ofState m : Edit σ ε α).Ends P Q E := h

theorem Ends.imp {m : Edit σ ε α} {Q' : α → Prop} {E' : ε → Prop} (h : m.Ends P Q E)
    (value : ∀ a, Q a → Q' a) (error : ∀ e, E e → E' e) : m.Ends P Q' E' := by
  intro s holds
  have ended := h s holds
  rcases hm : m s with ⟨⟨a⟩ | ⟨a, e⟩, s'⟩
  · rw [hm] at ended
    exact ⟨value a ended.1, ended.2⟩
  · rw [hm] at ended
    exact error e ended

/-- What a finished run is known to do may be used of the value. -/
theorem Ends.and_done {m : Edit σ ε α} {Q' : α → Prop} (h : m.Ends P Q E)
    (known : ∀ a s s', P s → m s = (.done a, s') → Q' a) : m.Ends P (fun a => Q a ∧ Q' a) E := by
  intro s holds
  have ended := h s holds
  rcases hm : m s with ⟨⟨a⟩ | ⟨a, e⟩, s'⟩
  · rw [hm] at ended
    exact ⟨⟨ended.1, known a s s' holds hm⟩, ended.2⟩
  · rw [hm] at ended
    exact ended

/-- A part ends as the whole does that is seen from it. -/
theorem Ends.of_map {m : Edit σ ε α} {f : α → β} {Q : β → Prop} (h : (m.map f).Ends P Q E) :
    m.Ends P (fun a => Q (f a)) E := by
  intro s holds
  have ended := h s holds
  unfold Edit.map at ended
  rcases hm : m s with ⟨⟨a⟩ | ⟨a, e⟩, s'⟩
  · rw [hm] at ended
    exact ended
  · rw [hm] at ended
    exact ended

theorem Ends.map {m : Edit σ ε α} {f : α → β} {Q : β → Prop}
    (h : m.Ends P (fun a => Q (f a)) E) : (m.map f).Ends P Q E := by
  intro s holds
  have ended := h s holds
  unfold Edit.map
  rcases hm : m s with ⟨⟨a⟩ | ⟨a, e⟩, s'⟩
  · rw [hm] at ended
    exact ended
  · rw [hm] at ended
    exact ended

/-- Two edits keep an invariant if each does, the second for every value of the first. -/
theorem Ends.andThen {m : Edit σ ε α} {whole : α → β} {next : α → Edit σ ε β} {R : β → Prop}
    (h : m.Ends P Q E) (hnext : ∀ a, Q a → (next a).Ends P R E) :
    (m.andThen whole next).Ends P R E := by
  intro s holds
  have ended := h s holds
  unfold Edit.andThen
  rcases hm : m s with ⟨⟨a⟩ | ⟨a, e⟩, s'⟩
  · rw [hm] at ended
    exact hnext a ended.1 s' ended.2
  · rw [hm] at ended
    exact ended

theorem Ends.seq {m : Edit σ ε α} {next : α → Edit σ ε α} {R : α → Prop} (h : m.Ends P Q E)
    (hnext : ∀ a, Q a → (next a).Ends P R E) : (m.seq next).Ends P R E := h.andThen hnext

/-- A list of edits finishes if every single edit does, and otherwise stops as one of them. -/
theorem Ends.list {f : α → Edit σ ε α} {R : α → α → Prop} {as : List α}
    (h : ∀ a ∈ as, (f a).Ends P (R a) E) :
    (Edit.list f as).Ends P (fun bs => List.Forall₂ R as bs) E := by
  induction as with
  | nil => exact Ends.keep .nil
  | cons a as ih =>
    refine (h a List.mem_cons_self).andThen fun b one => ?_
    refine Ends.map ((ih fun c hc => h c (List.mem_cons_of_mem _ hc)).imp (fun _ rest => ?_)
      fun _ => id)
    exact .cons one rest

end

end Edit

end ClassInit
