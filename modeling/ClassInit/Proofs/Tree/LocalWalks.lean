import ClassInit.Proofs.Tree.Places
import ClassInit.Proofs.Tree.Outline

/-!
# The two walks over local types agree

The walk that edits local types calls its callback on exactly the types that the other walk lists,
one after the other up to the first on which it fails, puts what the callback makes of them in their
place, and changes nothing else (`Stmt.local_walks_agree`). What is around the types is the outline
of a body; outline and types together are the whole body (`Stmt.eq_of_outlineOf`).
-/

set_option autoImplicit false

namespace ClassInit

/-! ## Runs over a list -/

theorem Outcome.eq_of_parts {ε α : Type} {o o' : Outcome ε α} (value : o.value = o'.value)
    (error : o.error? = o'.error?) : o = o' := by
  cases o <;> cases o' <;> simp_all [Outcome.value, Outcome.error?]

namespace Edit

variable {σ ε α β : Type}

/-- How a callback runs over a list: the items on which it is called, what becomes of the list, the
error if it comes to one, and the state afterwards. -/
inductive Walks (f : α → Edit σ ε α) : List α → σ → List α → List α → Option ε → σ → Prop where
  | nil (s : σ) : Walks f [] s [] [] none s
  /-- The callback fails; the items after that one stay as they are. -/
  | stop {a a' : α} {as : List α} {e : ε} {s s' : σ} (failed : f a s = (.stopped a' e, s')) :
      Walks f (a :: as) s [a] (a' :: as) (some e) s'
  | next {a a' : α} {as called as' : List α} {error : Option ε} {s s₁ s' : σ}
    (done : f a s = (.done a', s₁))
      (rest : Walks f as s₁ called as' error s') : Walks f (a :: as) s (a :: called) (a' :: as')
        error s'

theorem list_walks (f : α → Edit σ ε α) (as : List α) (s : σ) :
    ∃ called, Walks f as s called (list f as s).1.value (list f as s).1.error? (list f as s).2 := by
  induction as generalizing s with
  | nil => exact ⟨[], .nil s⟩
  | cons a as ih =>
    rw [list, andThen]
    rcases run : f a s with ⟨a' | ⟨a', e⟩, s₁⟩
    · obtain ⟨called, rest⟩ := ih s₁
      refine ⟨a :: called, ?_⟩
      dsimp only [map]
      rcases rest' : list f as s₁ with ⟨as' | ⟨as', e⟩, s'⟩ <;>
        (rw [rest'] at rest; exact .next run rest)
    · exact ⟨[a], .stop run⟩

/-- The run is determined by the callback, the list and the state. -/
theorem Walks.unique {f : α → Edit σ ε α} {as called called' bs bs' : List α}
    {error error' : Option ε} {s s₁ s₂ : σ} (first : Walks f as s called bs error s₁)
    (second : Walks f as s called' bs' error' s₂) :
    called = called' ∧ bs = bs' ∧ error = error' ∧ s₁ = s₂ := by
  induction first generalizing called' bs' with
  | nil s =>
    cases second
    exact ⟨rfl, rfl, rfl, rfl⟩
  | stop failed =>
    cases second with
    | stop failed' =>
      cases failed.symm.trans failed'
      exact ⟨rfl, rfl, rfl, rfl⟩
    | next done => cases failed.symm.trans done
  | next done rest ih =>
    cases second with
    | stop failed => cases done.symm.trans failed
    | next done' rest' =>
      cases done.symm.trans done'
      obtain ⟨rfl, rfl, rfl, rfl⟩ := ih rest'
      exact ⟨rfl, rfl, rfl, rfl⟩

/-- The callback with a record of the items on which it is called. -/
def recording (f : α → Edit σ ε α) : α → Edit (σ × List α) ε α := fun a (s, record) =>
  ((f a s).1, ((f a s).2, record ++ [a]))

theorem recording_eq_iff {f : α → Edit σ ε α} {a : α} {o : Outcome ε α} {s s' : σ × List α} :
    recording f a s = (o, s') ↔ f a s.1 = (o, s'.1) ∧ s'.2 = s.2 ++ [a] := by
  simp only [recording, Prod.ext_iff]
  constructor
  · rintro ⟨value, state, record⟩
    exact ⟨⟨value, state⟩, record.symm⟩
  · rintro ⟨⟨value, state⟩, record⟩
    exact ⟨value, state, record.symm⟩

/-- The record that a run keeps is that of the items on which the callback is called. -/
theorem Walks.of_recording {f : α → Edit σ ε α} {as called bs : List α} {error : Option ε}
    {s s' : σ × List α} (run : Walks (recording f) as s called bs error s') :
    Walks f as s.1 called bs error s'.1 ∧ s'.2 = s.2 ++ called := by
  induction run with
  | nil s => exact ⟨.nil s.1, (List.append_nil _).symm⟩
  | stop failed =>
    obtain ⟨failed, record⟩ := recording_eq_iff.mp failed
    exact ⟨.stop failed, record⟩
  | next done _ ih =>
    obtain ⟨done, record⟩ := recording_eq_iff.mp done
    obtain ⟨rest, record'⟩ := ih
    refine ⟨.next done rest, ?_⟩
    rw [record', record, List.append_assoc, List.singleton_append]

end Edit

/-! ## The bodies of a type -/

section

variable {σ ε : Type}

/-- Edits the statements of a method with a body or of an initializer block. -/
def Member.editBody (g : List Stmt → Edit σ ε (List Stmt)) : Member → Edit σ ε Member
  | .method ⟨h, some ⟨b, ss⟩⟩ => (g ss).map fun ss => .method ⟨h, some ⟨b, ss⟩⟩
  | .initializer ⟨i, s, ⟨b, ss⟩⟩ => (g ss).map fun ss => .initializer ⟨i, s, ⟨b, ss⟩⟩
  | m => Edit.keep m

/-- Edits the bodies of a type one after the other. -/
def TypeDecl.editBodies (g : List Stmt → Edit σ ε (List Stmt)) (d : TypeDecl) : Edit σ ε TypeDecl :=
  (Edit.list (Member.editBody g) d.members).map fun ms => { d with members := ms }

/-- The member with no statements in its body. -/
def Member.emptied : Member → Member
  | .method ⟨h, some ⟨b, _⟩⟩ => .method ⟨h, some ⟨b, []⟩⟩
  | .initializer ⟨i, s, ⟨b, _⟩⟩ => .initializer ⟨i, s, ⟨b, []⟩⟩
  | m => m

theorem Member.editLocalTypes_eq (f : TypeDecl → Edit σ ε TypeDecl) (m : Member) :
    Member.editLocalTypes f m = m.editBody (Stmt.editLocalTypesOf f) := by
  rcases m with d | ⟨h, _ | ⟨b, ss⟩⟩ | ⟨i, s, ⟨b, ss⟩⟩ | field <;> rfl

theorem TypeDecl.editLocalTypes_eq (f : TypeDecl → Edit σ ε TypeDecl) (d : TypeDecl) :
    TypeDecl.editLocalTypes f d = d.editBodies (Stmt.editLocalTypesOf f) := by
  rw [TypeDecl.editLocalTypes, TypeDecl.editBodies, funext (Member.editLocalTypes_eq f)]

variable (g : List Stmt → Edit σ ε (List Stmt))

theorem Member.editBody_map (m : Member) :
    (m.editBody g).map (fun m => m.body.toList) = Edit.list g m.body.toList := by
  rcases m with d | ⟨h, _ | ⟨b, ss⟩⟩ | ⟨i, s, ⟨b, ss⟩⟩ | field
  · rfl
  · rfl
  · exact Edit.map_map.trans Edit.list_singleton.symm
  · exact Edit.map_map.trans Edit.list_singleton.symm
  · rfl

theorem Member.editBody_emptied (m : Member) :
    (m.editBody g).Leaves fun m' => m'.emptied = m.emptied := by
  rcases m with d | ⟨h, _ | ⟨b, ss⟩⟩ | ⟨i, s, ⟨b, ss⟩⟩ | field
  · exact Edit.Leaves.keep rfl
  · exact Edit.Leaves.keep rfl
  · exact Edit.Leaves.map (P := fun _ => True) (fun _ => trivial) fun _ _ => rfl
  · exact Edit.Leaves.map (P := fun _ => True) (fun _ => trivial) fun _ _ => rfl
  · exact Edit.Leaves.keep rfl

/-- Editing the bodies of a type comes to editing the list of them. -/
theorem TypeDecl.editBodies_map (d : TypeDecl) :
    (d.editBodies g).map TypeDecl.bodies = Edit.list g d.bodies := by
  have flat : ∀ ms : List Member, ms.filterMap Member.body = ms.flatMap fun m => m.body.toList :=
    fun ms => List.filterMap_eq_flatMap_toList ..
  rw [TypeDecl.editBodies, Edit.map_map]
  simp only [TypeDecl.bodies, flat]
  exact Edit.map_list_flatMap (Member.editBody_map g) d.members

theorem TypeDecl.editBodies_emptied (d : TypeDecl) : (d.editBodies g).Leaves fun d' =>
    d'.head = d.head ∧ d'.members.map Member.emptied = d.members.map Member.emptied := by
  refine (Edit.Leaves.list (R := fun m m' => m'.emptied = m.emptied) (Member.editBody_emptied g)
    (fun _ => rfl) d.members).map fun ms same => ⟨rfl, ?_⟩
  exact map_eq_of_forall₂ same

end

/-! ## The agreement -/

section

variable {σ ε : Type}

/-- How a run of the walk that edits local types ends, beside what the other walk lists. -/
structure Stmt.WalksAgree (f : TypeDecl → Edit σ ε TypeDecl) (ss : List Stmt) (s : σ)
    (called : List TypeDecl) (end' : Outcome ε (List Stmt) × σ) : Prop where
  /-- The callback runs over the listed types; the listing afterwards has what it made of them. -/
  walks : Edit.Walks f (Stmt.localTypesOf ss) s called
    (Stmt.localTypesOf end'.1.value) end'.1.error? end'.2
  /-- The callback is called on these types in this order and on nothing else. -/
  recorded : Stmt.editLocalTypesOf (Edit.recording f) ss (s, []) = (end'.1, (end'.2, called))
  /-- What is around the types stays. -/
  outline : Stmt.outlineOf end'.1.value = Stmt.outlineOf ss
  /-- No other body has that outline and these types. -/
  only : ∀ ss', Stmt.outlineOf ss' = Stmt.outlineOf ss →
    Stmt.localTypesOf ss' = Stmt.localTypesOf end'.1.value → ss' = end'.1.value

/-- How a run over the bodies of a type ends, beside the bodies that are listed. -/
structure TypeDecl.BodiesAgree (g : List Stmt → Edit σ ε (List Stmt)) (d : TypeDecl) (s : σ)
    (called : List (List Stmt)) (end' : Outcome ε TypeDecl × σ) : Prop where
  /-- The callback runs over the listed bodies. -/
  walks : Edit.Walks g d.bodies s called end'.1.value.bodies end'.1.error? end'.2
  head : end'.1.value.head = d.head
  /-- What is around the bodies stays. -/
  members : end'.1.value.members.map Member.emptied = d.members.map Member.emptied

/-- A run over the parts of something is a run over the list of them, if editing it comes to editing
that list. -/
theorem Edit.Walks.of_map {α β : Type} {m : Edit σ ε β} {parts : β → List α} {f : α → Edit σ ε α}
    {as : List α} (same : m.map parts = Edit.list f as) (s : σ) :
    ∃ called, Edit.Walks f as s called (parts (m s).1.value) (m s).1.error? (m s).2 := by
  obtain ⟨called, walks⟩ := Edit.list_walks f as s
  rw [← same] at walks
  unfold Edit.map at walks
  refine ⟨called, ?_⟩
  rcases run : m s with ⟨b | ⟨b, e⟩, s'⟩ <;> (rw [run] at walks; exact walks)

theorem Stmt.exists_walksAgree (f : TypeDecl → Edit σ ε TypeDecl) (ss : List Stmt) (s : σ) :
    ∃ called, Stmt.WalksAgree f ss s called (Stmt.editLocalTypesOf f ss s) := by
  obtain ⟨called, walks⟩ := Edit.Walks.of_map (Stmt.editLocalTypesOf_map f ss) s
  obtain ⟨called', walks'⟩ :=
    Edit.Walks.of_map (Stmt.editLocalTypesOf_map (Edit.recording f) ss) (s, [])
  have outline := Stmt.editLocalTypesOf_outline f ss s
  have outline' := Stmt.editLocalTypesOf_outline (Edit.recording f) ss (s, [])
  -- With the record or without it, the callback runs in the same way and leaves the same body.
  obtain ⟨walks', record⟩ := walks'.of_recording
  obtain ⟨rfl, types, error, state⟩ := walks.unique walks'
  refine ⟨called, walks, ?_, outline, fun ss' same =>
    Stmt.eq_of_outlineOf (same.trans outline.symm)⟩
  have value := Stmt.eq_of_outlineOf (outline'.trans outline.symm) types.symm
  exact Prod.ext (Outcome.eq_of_parts value error.symm) (Prod.ext state.symm record)

theorem TypeDecl.exists_bodiesAgree (g : List Stmt → Edit σ ε (List Stmt)) (d : TypeDecl) (s : σ) :
    ∃ called, d.BodiesAgree g s called (d.editBodies g s) := by
  obtain ⟨called, walks⟩ := Edit.Walks.of_map (TypeDecl.editBodies_map g d) s
  obtain ⟨head, members⟩ := TypeDecl.editBodies_emptied g d s
  exact ⟨called, walks, head, members⟩

/-- For every body, callback and state: the walk that edits local types calls the callback on the
types that the other walk lists, in their order, up to the first on which it fails, ends with that
error or none, has put what the callback made of the types in their place and left the rest as it
was. The listed types are those at any depth of the body that are not inside another one, in the
order of the source. The local types in all bodies of a type are edited body by body, and whatever
is done to the bodies is done to those that are listed, in their order. -/
theorem Stmt.local_walks_agree (f : TypeDecl → Edit σ ε TypeDecl) (ss : List Stmt) (s : σ) :
    (∃ called, Stmt.WalksAgree f ss s called (Stmt.editLocalTypesOf f ss s)) ∧
    (∃ places, Stmt.Enumerates ss places) ∧
    (∀ d, TypeDecl.editLocalTypes f d = d.editBodies (Stmt.editLocalTypesOf f)) ∧
    ∀ (g : List Stmt → Edit σ ε (List Stmt)) (d : TypeDecl), ∃ called,
      d.BodiesAgree g s called (d.editBodies g s) :=
  ⟨Stmt.exists_walksAgree f ss s, Stmt.exists_enumerates ss, TypeDecl.editLocalTypes_eq f,
    fun g d =>
    d.exists_bodiesAgree g s⟩

end

end ClassInit
