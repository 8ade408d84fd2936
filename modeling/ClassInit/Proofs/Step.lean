import ClassInit.Proofs.Edit

/-!
# Steps that succeeded

A step works on a state. Resolving is made of steps that cannot fail, which open by computation;
lowering is made of steps that may. Such a step succeeded in every part if it succeeded: the lemmas
here take `(.ok b, s')` apart, one for each way in which steps are put together.
-/

set_option autoImplicit false

namespace ClassInit

variable {ε σ α β : Type}

theorem exists_eq_ok {r : Except ε α} (success : r.isOk = true) : ∃ a, r = .ok a := by
  cases r with
  | ok a => exact ⟨a, rfl⟩
  | error e => cases success

/-! ## Steps that cannot fail -/

@[simp] theorem state_bind (m : StateM σ α) (k : α → StateM σ β) (s : σ) :
    (m >>= k) s = k (m s).1 (m s).2 := rfl

@[simp] theorem state_pure (a : α) (s : σ) : (pure a : StateM σ α) s = (a, s) := rfl

@[simp] theorem state_map (f : α → β) (m : StateM σ α) (s : σ) :
    (f <$> m) s = (f (m s).1, (m s).2) := rfl

@[simp] theorem state_get (s : σ) : (get : StateM σ σ) s = (s, s) := rfl

namespace Step

/-! ## Steps that succeeded -/

theorem run_bind (m : ExceptT ε (StateM σ) α) (k : α → ExceptT ε (StateM σ) β) (s : σ) :
    (m >>= k).run s =
      match (m.run s : Except ε α × σ) with
      | (.ok a, s₁) => (k a).run s₁
      | (.error e, s₁) => (.error e, s₁) := by
  show (ExceptT.bindCont k (m.run s).1) (m.run s).2 = _
  generalize (m.run s : Except ε α × σ) = r
  rcases r with ⟨e | a, s₁⟩ <;> rfl

/-- Two steps succeed one after the other just if each does, the second from where the first
ended. -/
theorem bind_eq_ok {m : ExceptT ε (StateM σ) α} {k : α → ExceptT ε (StateM σ) β} {b : β}
    {s s' : σ} :
    (m >>= k).run s = (.ok b, s') ↔
      ∃ a s₁, m.run s = (.ok a, s₁) ∧ (k a).run s₁ = (.ok b, s') := by
  rw [run_bind]
  generalize (m.run s : Except ε α × σ) = r
  rcases r with ⟨e | a, s₁⟩
  · constructor
    · intro h
      cases h
    · rintro ⟨a, s₂, h, -⟩
      cases h
  · constructor
    · intro h
      exact ⟨a, s₁, rfl, h⟩
    · rintro ⟨a', s₂, h, hk⟩
      cases h
      exact hk

theorem pure_eq_ok {a b : α} {s s' : σ} :
    (pure a : ExceptT ε (StateM σ) α).run s = (.ok b, s') ↔ a = b ∧ s = s' := by
  show ((.ok a, s) : Except ε α × σ) = (.ok b, s') ↔ a = b ∧ s = s'
  simp

/-- A step that throws does not succeed. -/
theorem throw_ne_ok {e : ε} {b : α} {s s' : σ} :
    (throw e : ExceptT ε (StateM σ) α).run s ≠ (.ok b, s') := by
  show ((.error e, s) : Except ε α × σ) ≠ (.ok b, s')
  simp

/-- A step that cannot fail succeeds with what it gives. -/
theorem lift_eq_ok {m : StateM σ α} {b : α} {s s' : σ} :
    (liftM m : ExceptT ε (StateM σ) α).run s = (.ok b, s') ↔ m s = (b, s') := by
  show ((.ok (m s).1, (m s).2) : Except ε α × σ) = (.ok b, s') ↔ m s = (b, s')
  rw [Prod.ext_iff, Prod.ext_iff]
  simp

theorem get_eq_ok {a s s' : σ} :
    (get : ExceptT ε (StateM σ) σ).run s = (.ok a, s') ↔ s = a ∧ s = s' := by
  show ((.ok s, s) : Except ε σ × σ) = (.ok a, s') ↔ s = a ∧ s = s'
  simp

theorem modify_eq_ok {f : σ → σ} {u : PUnit} {s s' : σ} :
    (modify f : ExceptT ε (StateM σ) PUnit).run s = (.ok u, s') ↔ f s = s' := by
  show ((.ok ⟨⟩, f s) : Except ε PUnit × σ) = (.ok u, s') ↔ f s = s'
  simp

theorem set_eq_ok {a : σ} {u : PUnit} {s s' : σ} :
    (set a : ExceptT ε (StateM σ) PUnit).run s = (.ok u, s') ↔ a = s' := by
  show ((.ok ⟨⟩, a) : Except ε PUnit × σ) = (.ok u, s') ↔ a = s'
  simp

/-- Steps one after the other succeeded: before the one of an item, for the item, and after it. -/
theorem mapM_eq_ok_of_mem {f : α → ExceptT ε (StateM σ) β} {as : List α} {bs : List β} {s s' : σ}
    (run : (as.mapM f).run s = (.ok bs, s')) {b : β} (hb : b ∈ bs) :
    ∃ before a rest before' rest' s₁ s₂, as = before ++ a :: rest ∧ bs = before' ++ b :: rest' ∧
      (before.mapM f).run s = (.ok before', s₁) ∧ (f a).run s₁ = (.ok b, s₂) ∧
      (rest.mapM f).run s₂ = (.ok rest', s') := by
  induction as generalizing bs s with
  | nil =>
    obtain ⟨rfl, -⟩ := pure_eq_ok.mp run
    exact absurd hb List.not_mem_nil
  | cons a as ih =>
    rw [List.mapM_cons] at run
    obtain ⟨c, s₁, first, run⟩ := bind_eq_ok.mp run
    obtain ⟨cs, s₂, others, hpure⟩ := bind_eq_ok.mp run
    obtain ⟨rfl, rfl⟩ := pure_eq_ok.mp hpure
    rcases List.mem_cons.mp hb with rfl | hb
    · exact ⟨[], a, as, [], cs, s, s₁, rfl, rfl, rfl, first, others⟩
    · obtain ⟨before, a', rest, before', rest', s₃, s₄, rfl, rfl, early, one, late⟩ := ih others hb
      refine ⟨a :: before, a', rest, c :: before', rest', s₃, s₄, rfl, rfl, ?_, one, late⟩
      rw [List.mapM_cons]
      exact bind_eq_ok.mpr ⟨c, s₁, first, bind_eq_ok.mpr ⟨before', s₃, early, rfl⟩⟩

/-- Steps one after the other succeeded: the ones before a place, and then the one for the item at
this place. -/
theorem mapM_eq_ok_at {f : α → ExceptT ε (StateM σ) β} {as : List α} {bs : List β} {s s' : σ}
    (run : (as.mapM f).run s = (.ok bs, s')) {k : Nat} {a : α} (at_k : as[k]? = some a) :
    ∃ b s₁ s₂, bs[k]? = some b ∧ ((as.take k).mapM f).run s = (.ok (bs.take k), s₁) ∧
      (f a).run s₁ = (.ok b, s₂) := by
  induction as generalizing bs s k with
  | nil => cases at_k
  | cons c as ih =>
    rw [List.mapM_cons] at run
    obtain ⟨d, s₁, first, run⟩ := bind_eq_ok.mp run
    obtain ⟨ds, s₂, others, hpure⟩ := bind_eq_ok.mp run
    obtain ⟨rfl, rfl⟩ := pure_eq_ok.mp hpure
    cases k with
    | zero =>
      obtain rfl : c = a := Option.some.inj at_k
      exact ⟨d, s, s₁, rfl, rfl, first⟩
    | succ k =>
      obtain ⟨b, s₃, s₄, at_k', early, one⟩ := ih others at_k
      refine ⟨b, s₃, s₄, at_k', ?_, one⟩
      rw [List.take_succ_cons, List.take_succ_cons, List.mapM_cons]
      exact bind_eq_ok.mpr ⟨d, s₁, first, bind_eq_ok.mpr ⟨ds.take k, s₃, early, rfl⟩⟩

/-! ## What any step does to the state -/

/-- The step moves the state along a relation, whether it succeeds or fails. -/
def Moves (R : σ → σ → Prop) (m : ExceptT ε (StateM σ) α) : Prop := ∀ s, R s (m.run s).2

section

variable {R : σ → σ → Prop}

/-- Two steps move the state as a relation says if each does and the relation is transitive. -/
theorem Moves.bind (trans : ∀ a b c, R a b → R b c → R a c) {m : ExceptT ε (StateM σ) α}
    {k : α → ExceptT ε (StateM σ) β} (h : Moves R m) (hk : ∀ a, Moves R (k a)) :
    Moves R (m >>= k) := by
  intro s
  have first := h s
  rw [run_bind]
  revert first
  generalize (m.run s : Except ε α × σ) = r
  rcases r with ⟨e | a, s₁⟩
  · intro first
    exact first
  · intro first
    exact trans _ _ _ first (hk a s₁)

theorem Moves.pure (refl : ∀ s, R s s) (a : α) : Moves R (pure a : ExceptT ε (StateM σ) α) := refl

theorem Moves.throw (refl : ∀ s, R s s) (e : ε) : Moves R (throw e : ExceptT ε (StateM σ) α) :=
  refl

end

/-! ## Steps that succeed with a known value -/

/-- The step succeeds with the value and keeps what holds of the state. -/
def Returns (P : σ → Prop) (m : ExceptT ε (StateM σ) α) (a : α) : Prop :=
  ∀ s, P s → ∃ s', m.run s = (.ok a, s') ∧ P s'

section

variable {P : σ → Prop}

theorem Returns.pure (a : α) : Returns P (pure a : ExceptT ε (StateM σ) α) a :=
  fun s holds => ⟨s, rfl, holds⟩

/-- Two steps with known values have the value of the second. -/
theorem Returns.bind {m : ExceptT ε (StateM σ) α} {k : α → ExceptT ε (StateM σ) β} {a : α} {b : β}
    (h : Returns P m a) (hk : Returns P (k a) b) : Returns P (m >>= k) b := by
  intro s holds
  obtain ⟨s₁, run, holds₁⟩ := h s holds
  obtain ⟨s', run', holds'⟩ := hk s₁ holds₁
  exact ⟨s', bind_eq_ok.mpr ⟨a, s₁, run, run'⟩, holds'⟩

end

/-! ## How steps end -/

/-- In a state in which `P` holds the step either succeeds, with a value and in a state as `Q` says,
or fails with an error as `E` says. -/
def Ends (P : σ → Prop) (m : ExceptT ε (StateM σ) α) (Q : α → σ → Prop) (E : ε → Prop) : Prop :=
  ∀ s, P s → match (m.run s : Except ε α × σ) with
    | (.ok a, s') => Q a s'
    | (.error e, _) => E e

section

variable {P : σ → Prop} {Q : α → σ → Prop} {E : ε → Prop}

/-- What holds of every success holds of one. -/
theorem Ends.of_ok {m : ExceptT ε (StateM σ) α} (h : Ends P m Q E) {s s' : σ} {a : α} (holds : P s)
    (run : m.run s = (.ok a, s')) : Q a s' := by
  have ended := h s holds
  rw [run] at ended
  exact ended

/-- A step that cannot fail succeeds. -/
theorem Ends.succeeds {m : ExceptT ε (StateM σ) α} (h : Ends P m Q fun _ => False) {s : σ}
    (holds : P s) : ∃ a s', m.run s = (.ok a, s') ∧ Q a s' := by
  have ended := h s holds
  rcases hm : (m.run s : Except ε α × σ) with ⟨e | a, s'⟩
  · rw [hm] at ended
    exact ended.elim
  · rw [hm] at ended
    exact ⟨a, s', rfl, ended⟩

theorem Ends.imp {m : ExceptT ε (StateM σ) α} {R : α → σ → Prop} (h : Ends P m Q E)
    (value : ∀ a s, Q a s → R a s) : Ends P m R E := by
  intro s holds
  have ended := h s holds
  rcases hm : (m.run s : Except ε α × σ) with ⟨e | a, s'⟩
  · rw [hm] at ended
    exact ended
  · rw [hm] at ended
    exact value a s' ended

theorem Ends.pure {a : α} (h : ∀ s, P s → Q a s) :
    Ends P (pure a : ExceptT ε (StateM σ) α) Q E := h

theorem Ends.throw {e : ε} (h : ∀ s, P s → E e) :
    Ends P (throw e : ExceptT ε (StateM σ) α) Q E := h

theorem Ends.lift {m : StateM σ α} (h : ∀ s, P s → Q (m s).1 (m s).2) :
    Ends P (liftM m : ExceptT ε (StateM σ) α) Q E := h

theorem Ends.get {Q : σ → σ → Prop} (h : ∀ s, P s → Q s s) :
    Ends P (get : ExceptT ε (StateM σ) σ) Q E := h

theorem Ends.modify {f : σ → σ} {Q : PUnit → σ → Prop} (h : ∀ s, P s → Q ⟨⟩ (f s)) :
    Ends P (modify f : ExceptT ε (StateM σ) PUnit) Q E := h

theorem Ends.set {a : σ} {Q : PUnit → σ → Prop} (h : ∀ s, P s → Q ⟨⟩ a) :
    Ends P (set a : ExceptT ε (StateM σ) PUnit) Q E := h

/-- What the first step ends with is what the second starts from; errors may come from either. -/
theorem Ends.bind {m : ExceptT ε (StateM σ) α} {k : α → ExceptT ε (StateM σ) β} {R : β → σ → Prop}
    (h : Ends P m Q E) (hk : ∀ a, Ends (Q a) (k a) R E) : Ends P (m >>= k) R E := by
  intro s holds
  have ended := h s holds
  rw [run_bind]
  rcases hm : (m.run s : Except ε α × σ) with ⟨e | a, s'⟩
  · rw [hm] at ended
    exact ended
  · rw [hm] at ended
    exact hk a s' ended

end

/-! ## Steps that lead on -/

/-- From a state in which `P` holds the step succeeds with the value, in a state in which `Q`
holds. -/
def Leads (P : σ → Prop) (m : ExceptT ε (StateM σ) α) (a : α) (Q : σ → Prop) : Prop :=
  Ends P m (fun b s => b = a ∧ Q s) fun _ => False

section

variable {P Q : σ → Prop} {a : α}

theorem Leads.pure (h : ∀ s, P s → Q s) : Leads P (pure a : ExceptT ε (StateM σ) α) a Q :=
  Ends.pure fun s holds => ⟨rfl, h s holds⟩

theorem Leads.lift {m : StateM σ α} (h : ∀ s, P s → (m s).1 = a ∧ Q (m s).2) :
    Leads P (liftM m : ExceptT ε (StateM σ) α) a Q := Ends.lift h

/-- Two steps with known values and effects, one after the other. -/
theorem Leads.bind {m : ExceptT ε (StateM σ) α} {k : α → ExceptT ε (StateM σ) β} {b : β}
    {R : σ → Prop} (h : Leads P m a Q) (hk : Leads Q (k a) b R) : Leads P (m >>= k) b R :=
  Ends.bind h fun a' s ⟨same, holds⟩ => by
    subst same
    exact hk s holds

end

/-! ## Steps with an invariant -/

/-- As `Ends`, with what holds of the state told apart from what the value is. -/
def Keeps (P : σ → Prop) (m : ExceptT ε (StateM σ) α) (Q : α → Prop) (E : ε → Prop) : Prop :=
  Ends P m (fun a s => Q a ∧ P s) E

section

variable {P : σ → Prop} {Q : α → Prop} {E : ε → Prop}

theorem Keeps.imp {m : ExceptT ε (StateM σ) α} {R : α → Prop} (h : Keeps P m Q E)
    (value : ∀ a, Q a → R a) : Keeps P m R E :=
  Ends.imp h fun a _ ⟨ha, holds⟩ => ⟨value a ha, holds⟩

theorem Keeps.pure {a : α} (h : Q a) : Keeps P (pure a : ExceptT ε (StateM σ) α) Q E :=
  Ends.pure fun _ holds => ⟨h, holds⟩

theorem Keeps.throw {e : ε} (h : E e) : Keeps P (throw e : ExceptT ε (StateM σ) α) Q E :=
  Ends.throw fun _ _ => h

theorem Keeps.lift {m : StateM σ α} (h : ∀ s, P s → Q (m s).1 ∧ P (m s).2) :
    Keeps P (liftM m : ExceptT ε (StateM σ) α) Q E := Ends.lift h

theorem Keeps.get {Q : σ → Prop} (h : ∀ s, P s → Q s) :
    Keeps P (get : ExceptT ε (StateM σ) σ) Q E := Ends.get fun s holds => ⟨h s holds, holds⟩

theorem Keeps.set {a : σ} (h : P a) :
    Keeps P (set a : ExceptT ε (StateM σ) PUnit) (fun _ => True) E :=
  Ends.set fun _ _ => ⟨trivial, h⟩

theorem Keeps.modify {f : σ → σ} (h : ∀ s, P s → P (f s)) :
    Keeps P (modify f : ExceptT ε (StateM σ) PUnit) (fun _ => True) E :=
  Ends.modify fun s holds => ⟨trivial, h s holds⟩

/-- Two steps keep an invariant if each does, the second for every value of the first. -/
theorem Keeps.bind {m : ExceptT ε (StateM σ) α} {k : α → ExceptT ε (StateM σ) β} {R : β → Prop}
    (h : Keeps P m Q E) (hk : ∀ a, Q a → Keeps P (k a) R E) : Keeps P (m >>= k) R E :=
  Ends.bind h fun a s ⟨ha, holds⟩ => hk a ha s holds

end

end Step

end ClassInit
