import ClassInit.Proofs.Tree.Declarations

/-!
# What an edit of nested types leaves alone

The outline of a body is the body with the contents of its local types left out; outline and local
types together are the whole body (`Stmt.eq_of_outlineOf`). An edit of the local types comes to the
same, whether it finishes or stops, as an edit of the list of these types
(`Stmt.editLocalTypes_map`), and keeps the outline (`Stmt.editLocalTypes_outline`). What else is
known of such an edit follows from the two. A walk that goes through the members of a type and then
through its bodies ends as its edits of the single types do (`TypeDecl.walk_ends`).
-/

set_option autoImplicit false

namespace ClassInit

/-! ## Outlines -/

mutual

/-- The statement without the contents of its local types. -/
def Stmt.outline : Stmt → Stmt
  | .localType i _ => .localType i default
  | .block i ⟨b, ss⟩ => .block i ⟨b, Stmt.outlineOf ss⟩
  | .ifElse i c t none => .ifElse i c t.outline none
  | .ifElse i c t (some e) => .ifElse i c t.outline (some e.outline)
  | .whileLoop i c b => .whileLoop i c b.outline
  | .forLoop i init c us b => .forLoop i (Stmt.outlineOf init) c us b.outline
  | .tryCatch i ⟨b, ss⟩ cs none =>
    .tryCatch i ⟨b, Stmt.outlineOf ss⟩ (CatchClause.outlineOf cs) none
  | .tryCatch i ⟨b, ss⟩ cs (some ⟨fb, fs⟩) =>
    .tryCatch i ⟨b, Stmt.outlineOf ss⟩ (CatchClause.outlineOf cs) (some ⟨fb, Stmt.outlineOf fs⟩)
  | .expression i e => .expression i e
  | .localVariable i m t fs => .localVariable i m t fs
  | .returnValue i e => .returnValue i e
  | .throwValue i e => .throwValue i e
  | .superCall i as b => .superCall i as b
  | .thisCall i as b => .thisCall i as b
  | .empty i => .empty i

def Stmt.outlineOf : List Stmt → List Stmt
  | [] => []
  | s :: ss => s.outline :: Stmt.outlineOf ss

def CatchClause.outlineOf : List CatchClause → List CatchClause
  | [] => []
  | ⟨sp, x, ⟨b, ss⟩⟩ :: cs => ⟨sp, x, ⟨b, Stmt.outlineOf ss⟩⟩ :: CatchClause.outlineOf cs

end

/-- The member without the contents of the types in it. -/
def Member.outline : Member → Member
  | .type _ => .type default
  | .method ⟨h, none⟩ => .method ⟨h, none⟩
  | .method ⟨h, some ⟨b, ss⟩⟩ => .method ⟨h, some ⟨b, Stmt.outlineOf ss⟩⟩
  | .initializer ⟨i, s, ⟨b, ss⟩⟩ => .initializer ⟨i, s, ⟨b, Stmt.outlineOf ss⟩⟩
  | .field f => .field f

theorem Stmt.outlineOf_eq_map (ss : List Stmt) : Stmt.outlineOf ss = ss.map Stmt.outline := by
  induction ss with
  | nil => rfl
  | cons s ss ih => rw [Stmt.outlineOf, List.map_cons, ih]

/-- What does not depend on the contents of nested types is the same for types of one outline. -/
theorem TypeDecl.map_of_outline {d d₁ : TypeDecl}
    (same : d₁.members.map Member.outline = d.members.map Member.outline) {α : Type}
    {f : Member → α} (outline : ∀ m : Member, f m.outline = f m) :
    d₁.members.map f = d.members.map f := by
  have through : ∀ ms : List Member, ms.map f = (ms.map Member.outline).map f := by
    intro ms
    rw [List.map_map]
    exact List.map_congr_left fun m _ => (outline m).symm
  rw [through d₁.members, same, ← through d.members]

/-- Types with the same outline have as many members with a property that does not depend on local
types. -/
theorem TypeDecl.countP_of_outline {d d₁ : TypeDecl}
    (same : d₁.members.map Member.outline = d.members.map Member.outline) {p : Member → Bool}
    (outline : ∀ m : Member, p m.outline = p m) : d₁.members.countP p = d.members.countP p := by
  have mapped : ∀ ms : List Member, ms.countP p = (ms.map p).countP id := by
    intro ms
    rw [List.countP_map]
    rfl
  rw [mapped, map_of_outline same outline, ← mapped]

/-! ## Editing local types -/

section

variable {σ ε : Type}

section

variable (f : TypeDecl → Edit σ ε TypeDecl)

mutual

/-- Editing the local types of a statement is editing the list of them. -/
theorem Stmt.editLocalTypes_map : ∀ s : Stmt,
    (Stmt.editLocalTypes f s).map Stmt.localTypes = Edit.list f s.localTypes
  | .localType i d => by simp [Stmt.editLocalTypes, Stmt.localTypes]
  | .block i ⟨bi, ss⟩ => by
    simp [Stmt.editLocalTypes, Stmt.localTypes, Stmt.editLocalTypesOf_map ss]
  | .ifElse i c t none => by simp [Stmt.editLocalTypes, Stmt.localTypes, Stmt.editLocalTypes_map t]
  | .ifElse i c t (some e) => by
    simp [Stmt.editLocalTypes, Stmt.localTypes, ← Stmt.editLocalTypes_map t,
      ← Stmt.editLocalTypes_map e]
  | .whileLoop i c body => by
    simp [Stmt.editLocalTypes, Stmt.localTypes, Stmt.editLocalTypes_map body]
  | .forLoop i init c us body => by
    simp [Stmt.editLocalTypes, Stmt.localTypes, ← Stmt.editLocalTypesOf_map init,
      ← Stmt.editLocalTypes_map body]
  | .tryCatch i ⟨bi, ss⟩ cs none => by
    simp [Stmt.editLocalTypes, Stmt.localTypes, ← Stmt.editLocalTypesOf_map ss,
      ← CatchClause.editLocalTypesOf_map cs]
  | .tryCatch i ⟨bi, ss⟩ cs (some ⟨fi, fs⟩) => by
    simp [Stmt.editLocalTypes, Stmt.localTypes, ← Stmt.editLocalTypesOf_map ss,
      ← CatchClause.editLocalTypesOf_map cs, ← Stmt.editLocalTypesOf_map fs]
  | .expression .. => rfl
  | .localVariable .. => rfl
  | .returnValue .. => rfl
  | .throwValue .. => rfl
  | .superCall .. => rfl
  | .thisCall .. => rfl
  | .empty _ => rfl

theorem Stmt.editLocalTypesOf_map : ∀ ss : List Stmt,
    (Stmt.editLocalTypesOf f ss).map Stmt.localTypesOf = Edit.list f (Stmt.localTypesOf ss)
  | [] => rfl
  | s :: ss => by
    simp [Stmt.editLocalTypesOf, Stmt.localTypesOf, ← Stmt.editLocalTypes_map s,
      ← Stmt.editLocalTypesOf_map ss]

theorem CatchClause.editLocalTypesOf_map : ∀ cs : List CatchClause,
    (CatchClause.editLocalTypesOf f cs).map CatchClause.localTypesOf =
      Edit.list f (CatchClause.localTypesOf cs)
  | [] => rfl
  | ⟨sp, x, ⟨bi, ss⟩⟩ :: cs => by
    simp [CatchClause.editLocalTypesOf, CatchClause.localTypesOf, ← Stmt.editLocalTypesOf_map ss,
      ← CatchClause.editLocalTypesOf_map cs]

end

mutual

/-- An edit of local types keeps the outline, whether it finishes or stops. -/
theorem Stmt.editLocalTypes_outline :
    ∀ s : Stmt, (Stmt.editLocalTypes f s).Leaves fun s' => s'.outline = s.outline
  | .localType i d => by
    rw [Stmt.editLocalTypes]
    exact Edit.Leaves.map (P := fun _ => True) (fun _ => trivial) fun _ _ => rfl
  | .block i ⟨b, ss⟩ => by
    rw [Stmt.editLocalTypes]
    exact (Stmt.editLocalTypesOf_outline ss).map fun _ same => by simp only [Stmt.outline, same]
  | .ifElse i c t none => by
    rw [Stmt.editLocalTypes]
    exact (Stmt.editLocalTypes_outline t).map fun _ same => by simp only [Stmt.outline, same]
  | .ifElse i c t (some e) => by
    rw [Stmt.editLocalTypes]
    refine (Stmt.editLocalTypes_outline t).andThen (fun _ same => by simp only [Stmt.outline, same])
      fun _ same => ?_
    exact (Stmt.editLocalTypes_outline e).map fun _ same' => by
      simp only [Stmt.outline, same, same']
  | .whileLoop i c b => by
    rw [Stmt.editLocalTypes]
    exact (Stmt.editLocalTypes_outline b).map fun _ same => by simp only [Stmt.outline, same]
  | .forLoop i init c us b => by
    rw [Stmt.editLocalTypes]
    refine (Stmt.editLocalTypesOf_outline init).andThen
      (fun _ same => by simp only [Stmt.outline, same])
      fun _ same => ?_
    exact (Stmt.editLocalTypes_outline b).map fun _ same' => by
      simp only [Stmt.outline, same, same']
  | .tryCatch i ⟨b, ss⟩ cs none => by
    rw [Stmt.editLocalTypes]
    refine (Stmt.editLocalTypesOf_outline ss).andThen
      (fun _ same => by simp only [Stmt.outline, same])
      fun _ same => ?_
    exact (CatchClause.editLocalTypesOf_outline cs).map fun _ same' => by
      simp only [Stmt.outline, same, same']
  | .tryCatch i ⟨b, ss⟩ cs (some ⟨fb, fs⟩) => by
    rw [Stmt.editLocalTypes]
    refine (Stmt.editLocalTypesOf_outline ss).andThen
      (fun _ same => by simp only [Stmt.outline, same])
      fun _ same => ?_
    refine (CatchClause.editLocalTypesOf_outline cs).andThen
      (fun _ same' => by simp only [Stmt.outline, same, same']) fun _ same' => ?_
    exact (Stmt.editLocalTypesOf_outline fs).map fun _ same'' => by
      simp only [Stmt.outline, same, same', same'']
  | .expression .. => Edit.Leaves.keep rfl
  | .localVariable .. => Edit.Leaves.keep rfl
  | .returnValue .. => Edit.Leaves.keep rfl
  | .throwValue .. => Edit.Leaves.keep rfl
  | .superCall .. => Edit.Leaves.keep rfl
  | .thisCall .. => Edit.Leaves.keep rfl
  | .empty _ => Edit.Leaves.keep rfl

/-- An edit of the local types keeps what is around them, whether it finishes or stops. -/
theorem Stmt.editLocalTypesOf_outline : ∀ ss : List Stmt,
    (Stmt.editLocalTypesOf f ss).Leaves fun ss' => Stmt.outlineOf ss' = Stmt.outlineOf ss
  | [] => Edit.Leaves.keep rfl
  | s :: ss => by
    rw [Stmt.editLocalTypesOf]
    refine (Stmt.editLocalTypes_outline s).andThen
      (fun _ same => by simp only [Stmt.outlineOf, same])
      fun _ same => ?_
    exact (Stmt.editLocalTypesOf_outline ss).map fun _ same' => by
      simp only [Stmt.outlineOf, same, same']

theorem CatchClause.editLocalTypesOf_outline :
    ∀ cs : List CatchClause, (CatchClause.editLocalTypesOf f cs).Leaves fun cs' =>
      CatchClause.outlineOf cs' = CatchClause.outlineOf cs
  | [] => Edit.Leaves.keep rfl
  | ⟨sp, x, ⟨b, ss⟩⟩ :: cs => by
    rw [CatchClause.editLocalTypesOf]
    refine (Stmt.editLocalTypesOf_outline ss).andThen
      (fun _ same => by simp only [CatchClause.outlineOf, same])
      fun _ same => ?_
    exact (CatchClause.editLocalTypesOf_outline cs).map fun _ same' => by
      simp only [CatchClause.outlineOf, same, same']

end

end

/-! ## Bodies from outlines -/

/-- Puts the next type of a list in the place of one. -/
def refill : TypeDecl → Edit (List TypeDecl) Empty TypeDecl
  | d, [] => (.done d, [])
  | _, d :: ds => (.done d, ds)

mutual

/-- The outline and the local types of a statement give it back. -/
theorem Stmt.refill_outline : ∀ (s : Stmt) (rest : List TypeDecl),
    Stmt.editLocalTypes refill s.outline (s.localTypes ++ rest) = (.done s, rest)
  | .localType i d, rest => rfl
  | .block i ⟨b, ss⟩, rest => by
    simp [Stmt.outline, Stmt.localTypes, Stmt.editLocalTypes, Edit.map, Stmt.refill_outlineOf ss,
      Outcome.map]
  | .ifElse i c t none, rest => by
    simp [Stmt.outline, Stmt.localTypes, Stmt.editLocalTypes, Edit.map, Stmt.refill_outline t,
      Outcome.map]
  | .ifElse i c t (some e), rest => by
    simp [Stmt.outline, Stmt.localTypes, Stmt.editLocalTypes, Edit.map, Edit.andThen,
      Stmt.refill_outline t, Stmt.refill_outline e, Outcome.map]
  | .whileLoop i c b, rest => by
    simp [Stmt.outline, Stmt.localTypes, Stmt.editLocalTypes, Edit.map, Stmt.refill_outline b,
      Outcome.map]
  | .forLoop i init c us b, rest => by
    simp [Stmt.outline, Stmt.localTypes, Stmt.editLocalTypes, Edit.map, Edit.andThen,
      Stmt.refill_outlineOf init, Stmt.refill_outline b, Outcome.map]
  | .tryCatch i ⟨b, ss⟩ cs none, rest => by
    simp [Stmt.outline, Stmt.localTypes, Stmt.editLocalTypes, Edit.map, Edit.andThen,
      Stmt.refill_outlineOf ss, CatchClause.refill_outlineOf cs, Outcome.map]
  | .tryCatch i ⟨b, ss⟩ cs (some ⟨fb, fs⟩), rest => by
    simp [Stmt.outline, Stmt.localTypes, Stmt.editLocalTypes, Edit.map, Edit.andThen,
      Stmt.refill_outlineOf ss, CatchClause.refill_outlineOf cs, Stmt.refill_outlineOf fs,
        Outcome.map]
  | .expression .., _ => rfl
  | .localVariable .., _ => rfl
  | .returnValue .., _ => rfl
  | .throwValue .., _ => rfl
  | .superCall .., _ => rfl
  | .thisCall .., _ => rfl
  | .empty _, _ => rfl

/-- Putting the local types of a body back into its outline gives the body. -/
theorem Stmt.refill_outlineOf :
    ∀ (ss : List Stmt) (rest : List TypeDecl), Stmt.editLocalTypesOf refill (Stmt.outlineOf ss)
      (Stmt.localTypesOf ss ++ rest) = (.done ss, rest)
  | [], _ => rfl
  | s :: ss, rest => by
    simp [Stmt.outlineOf, Stmt.localTypesOf, Stmt.editLocalTypesOf, Edit.map, Edit.andThen,
      Stmt.refill_outline s, Stmt.refill_outlineOf ss, Outcome.map]

theorem CatchClause.refill_outlineOf : ∀ (cs : List CatchClause) (rest : List TypeDecl),
    CatchClause.editLocalTypesOf refill (CatchClause.outlineOf cs)
      (CatchClause.localTypesOf cs ++ rest) =
      (.done cs, rest)
  | [], _ => rfl
  | ⟨sp, x, ⟨b, ss⟩⟩ :: cs, rest => by
    simp [CatchClause.outlineOf, CatchClause.localTypesOf, CatchClause.editLocalTypesOf, Edit.map,
      Edit.andThen, Stmt.refill_outlineOf ss, CatchClause.refill_outlineOf cs, Outcome.map]

end

/-- Outline and local types determine a body. -/
theorem Stmt.eq_of_outlineOf {ss ss' : List Stmt} (outline : Stmt.outlineOf ss = Stmt.outlineOf ss')
    (types : Stmt.localTypesOf ss = Stmt.localTypesOf ss') : ss = ss' := by
  have first := Stmt.refill_outlineOf ss []
  rw [outline, types, Stmt.refill_outlineOf ss' []] at first
  cases first
  rfl

/-! ## What an edit does to a body -/

variable {f : TypeDecl → Edit σ ε TypeDecl}

/-- A finished edit edited the local types in order and kept the outline. -/
theorem Stmt.editLocalTypes_done {s s' : Stmt} {a b : σ}
    (run : Stmt.editLocalTypes f s a = (.done s', b)) :
    Edit.list f s.localTypes a = (.done s'.localTypes, b) ∧ s'.outline = s.outline :=
  ⟨Edit.done_of_map (Stmt.editLocalTypes_map f s) run,
    (Stmt.editLocalTypes_outline f s).of_done run⟩

/-- A body whose local types all stay as they are stays as it is. -/
theorem Stmt.editLocalTypesOf_returns {P : σ → Prop} {ss : List Stmt}
    (stay : ∀ d ∈ Stmt.localTypesOf ss, (f d).Returns P d) :
    (Stmt.editLocalTypesOf f ss).Returns P ss := by
  intro s holds
  obtain ⟨s', listed, holds'⟩ := Edit.Returns.list stay s holds
  rw [← Stmt.editLocalTypesOf_map] at listed
  obtain ⟨ss', run, types⟩ := Edit.map_eq_done.mp listed
  -- What the edit makes of the body has the outline and the local types of the body.
  cases Stmt.eq_of_outlineOf ((Stmt.editLocalTypesOf_outline f ss).of_done run) types
  exact ⟨s', run, holds'⟩

section

variable {R : σ → σ → Prop} (refl : ∀ s, R s s) (trans : ∀ a b c, R a b → R b c → R a c)
  (single : ∀ d, (f d).Moves R)

include refl trans single

/-- An edit of local types moves the state as its steps do. -/
theorem Stmt.editLocalTypesOf_moves (ss : List Stmt) : (Stmt.editLocalTypesOf f ss).Moves R := by
  have listed : (Edit.list f (Stmt.localTypesOf ss)).Moves R := .list refl trans fun d _ => single d
  rw [← Stmt.editLocalTypesOf_map] at listed
  exact listed.of_map

end

/-! ## Editing the bodies of a type -/

section

variable (f)

/-- Editing the local types of a member is editing the list of them. -/
theorem Member.editLocalTypes_map (m : Member) :
    (Member.editLocalTypes f m).map Member.localTypes = Edit.list f m.localTypes := by
  rcases m with d | ⟨h, _ | ⟨i, ss⟩⟩ | ⟨i, s, ⟨bi, ss⟩⟩ | field
  · rfl
  · rfl
  · rw [Member.editLocalTypes, Edit.map_map]
    exact Stmt.editLocalTypesOf_map f ss
  · rw [Member.editLocalTypes, Edit.map_map]
    exact Stmt.editLocalTypesOf_map f ss
  · rfl

/-- An edit of local types keeps the outline of a member and leaves a member that is a type
alone. -/
theorem Member.editLocalTypes_outline (m : Member) : (Member.editLocalTypes f m).Leaves fun m' =>
    m'.outline = m.outline ∧ m'.asType = m.asType := by
  rcases m with d | ⟨h, _ | ⟨i, ss⟩⟩ | ⟨i, s, ⟨bi, ss⟩⟩ | field
  · exact Edit.Leaves.keep ⟨rfl, rfl⟩
  · exact Edit.Leaves.keep ⟨rfl, rfl⟩
  · exact (Stmt.editLocalTypesOf_outline f ss).map fun _ same =>
      ⟨by simp only [Member.outline, same], rfl⟩
  · exact (Stmt.editLocalTypesOf_outline f ss).map fun _ same =>
      ⟨by simp only [Member.outline, same], rfl⟩
  · exact Edit.Leaves.keep ⟨rfl, rfl⟩

theorem Member.editAllLocalTypes_map (ms : List Member) :
    (Edit.list (Member.editLocalTypes f) ms).map (List.flatMap Member.localTypes) =
      Edit.list f (ms.flatMap Member.localTypes) :=
  Edit.map_list_flatMap (Member.editLocalTypes_map f) ms

/-- Editing the local types in all bodies of a type comes to editing the list of them. -/
theorem TypeDecl.editLocalTypes_map (d : TypeDecl) :
    (TypeDecl.editLocalTypes f d).map (fun d => d.members.flatMap Member.localTypes) =
      Edit.list f (d.members.flatMap Member.localTypes) := by
  rw [TypeDecl.editLocalTypes, Edit.map_map]
  exact Member.editAllLocalTypes_map f d.members

end

/-- A finished edit of a member edited its local types in order and kept the rest. -/
theorem Member.editLocalTypes_done {m m' : Member} {a b : σ}
    (run : Member.editLocalTypes f m a = (.done m', b)) :
    Edit.list f m.localTypes a = (.done m'.localTypes, b) ∧ m'.outline = m.outline ∧
      m'.asType = m.asType :=
  ⟨Edit.done_of_map (Member.editLocalTypes_map f m) run,
    (Member.editLocalTypes_outline f m).of_done run⟩

/-- Editing the local types in all bodies of a type edits what stands in the bodies and nothing
else. -/
theorem TypeDecl.editLocalTypes_done {d d' : TypeDecl} {a b : σ}
    (run : TypeDecl.editLocalTypes f d a = (.done d', b)) :
    Edit.list f (d.members.flatMap Member.localTypes) a =
        (.done (d'.members.flatMap Member.localTypes), b) ∧
      d'.head = d.head ∧ d'.members.map Member.outline = d.members.map Member.outline ∧
      d'.memberTypes = d.memberTypes := by
  have listed := Edit.done_of_map (TypeDecl.editLocalTypes_map f d) run
  obtain ⟨ms, hms, rfl⟩ := Edit.map_eq_done.mp run
  have kept :
      List.Forall₂ (fun m m' => m'.outline = m.outline ∧ m'.asType = m.asType) d.members ms :=
    (Edit.Leaves.list (Member.editLocalTypes_outline f) (fun _ => ⟨rfl, rfl⟩) d.members).of_done hms
  have types : ms.map Member.asType = d.members.map Member.asType :=
    map_eq_of_forall₂ (kept.imp fun _ _ one => one.2)
  refine ⟨listed, rfl, map_eq_of_forall₂ (kept.imp fun _ _ one => one.1), ?_⟩
  have through :
      ∀ ms : List Member, (ms.map Member.asType).filterMap id = ms.filterMap Member.asType :=
    fun ms => List.filterMap_map ..
  rw [TypeDecl.memberTypes, TypeDecl.memberTypes, ← through, ← through, types]

section

variable {P : σ → Prop}

theorem Member.editLocalTypes_returns (m : Member) (stay : ∀ d ∈ m.localTypes, (f d).Returns P d) :
    (Member.editLocalTypes f m).Returns P m := by
  rcases m with d | ⟨h, _ | ⟨i, ss⟩⟩ | ⟨i, s, ⟨bi, ss⟩⟩ | field
  · exact Edit.Returns.keep _
  · exact Edit.Returns.keep _
  · exact (Stmt.editLocalTypesOf_returns stay).map _
  · exact (Stmt.editLocalTypesOf_returns stay).map _
  · exact Edit.Returns.keep _

/-- If every local type in the bodies of a type stays as it is, the type does. -/
theorem TypeDecl.editLocalTypes_returns (d : TypeDecl)
    (stay : ∀ x ∈ d.members.flatMap Member.localTypes, (f x).Returns P x) :
    (TypeDecl.editLocalTypes f d).Returns P d := by
  obtain ⟨h, ms⟩ := d
  have members : (Edit.list (Member.editLocalTypes f) ms).Returns P ms :=
    Edit.Returns.list fun m hm => Member.editLocalTypes_returns m fun x hx =>
      stay x (List.mem_flatMap.mpr ⟨m, hm, hx⟩)
  exact members.map (TypeDecl.mk h)

end

section

variable {R : σ → σ → Prop} (refl : ∀ s, R s s) (trans : ∀ a b c, R a b → R b c → R a c)
  (single : ∀ d, (f d).Moves R)

include refl trans single

theorem Member.editLocalTypes_moves (m : Member) : (Member.editLocalTypes f m).Moves R := by
  rcases m with d | ⟨h, _ | ⟨i, ss⟩⟩ | ⟨i, s, ⟨bi, ss⟩⟩ | field
  · exact refl
  · exact refl
  · exact (Stmt.editLocalTypesOf_moves refl trans single ss).map _
  · exact (Stmt.editLocalTypesOf_moves refl trans single ss).map _
  · exact refl

/-- Whatever a single edit does to the state, an edit of all local types of a type does. -/
theorem TypeDecl.editLocalTypes_moves (d : TypeDecl) : (TypeDecl.editLocalTypes f d).Moves R :=
  (Edit.Moves.list refl trans fun m _ => Member.editLocalTypes_moves refl trans single m).map _

end

/-! ## Walks over the members and the bodies of a type -/

/-- Relating the types among members member by member relates all of them. -/
theorem Member.forall₂_asType {R : TypeDecl → TypeDecl → Prop} {ms ms' : List Member}
    (related : List.Forall₂ (fun m m' => List.Forall₂ R m.asType.toList m'.asType.toList) ms ms') :
    List.Forall₂ R (ms.filterMap Member.asType) (ms'.filterMap Member.asType) := by
  rw [List.filterMap_eq_flatMap_toList, List.filterMap_eq_flatMap_toList]
  induction related with
  | nil => exact .nil
  | cons one _ ih => exact List.rel_append one ih

/-- A walk over the members of a type, which leaves their bodies alone, and then over the local
types of the bodies finishes if its edits of the types directly inside do, and otherwise stops as
one of them. -/
theorem TypeDecl.walk_ends {P : σ → Prop} {E : ε → Prop} {R : TypeDecl → TypeDecl → Prop}
    {edit : Member → Edit σ ε Member} {nested : TypeDecl → Edit σ ε TypeDecl} {d : TypeDecl}
    (members : ∀ m ∈ d.members, (edit m).Ends P
      (fun m' => List.Forall₂ R m.asType.toList m'.asType.toList ∧ m'.localTypes = m.localTypes) E)
    (locals : ∀ x ∈ d.members.flatMap Member.localTypes, (nested x).Ends P (R x) E) :
    (((Edit.list edit d.members).map fun ms => { d with members := ms }).seq
      (TypeDecl.editLocalTypes nested)).Ends P
        (fun d' => List.Forall₂ R d.inner d'.inner ∧ d'.head = d.head) E := by
  have first : ((Edit.list edit d.members).map fun ms => { d with members := ms }).Ends P
      (fun d₁ => d₁.head = d.head ∧ List.Forall₂ R d.memberTypes d₁.memberTypes ∧
        d₁.members.flatMap Member.localTypes = d.members.flatMap Member.localTypes) E := by
    refine Edit.Ends.map ((Edit.Ends.list members).imp (fun ms related => ?_) fun _ => id)
    refine ⟨rfl, Member.forall₂_asType (related.imp fun _ _ one => one.1), ?_⟩
    have bodies := map_eq_of_forall₂ (related.imp fun _ _ one => one.2)
    rw [List.flatMap, List.flatMap, bodies]
  refine first.seq fun d₁ ⟨head, types, bodies⟩ => ?_
  have listed := Edit.Ends.list locals
  rw [← bodies, ← TypeDecl.editLocalTypes_map] at listed
  -- The second part goes through the bodies and leaves the member types as the first part left
  -- them.
  have around : ∀ d₂ s s', P s → TypeDecl.editLocalTypes nested d₁ s = (.done d₂, s') →
      d₂.head = d₁.head ∧ d₂.memberTypes = d₁.memberTypes := by
    intro d₂ s s' _ run
    obtain ⟨-, head', -, types'⟩ := TypeDecl.editLocalTypes_done run
    exact ⟨head', types'⟩
  refine (listed.of_map.and_done around).imp (fun d₂ ⟨related, head', types'⟩ => ?_) fun _ => id
  refine ⟨?_, head'.trans head⟩
  rw [TypeDecl.inner, TypeDecl.inner, types', ← bodies]
  exact List.rel_append types related

end

end ClassInit
