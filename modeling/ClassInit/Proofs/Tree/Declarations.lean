import ClassInit.Proofs.Edit
import ClassInit.Proofs.Tree.Erase
import ClassInit.Tree.LocalTypes

/-!
# Every declaration of a tree

`TypeDecl.declarations` lists a type declaration and all that stand in it, member types and local
types alike, at any depth. The walk over local types finds them one type at a time
(`Stmt.declarationsOf_eq`), and erasing goes through the list (`TypeDecl.declarations_erase`).
-/

set_option autoImplicit false

namespace ClassInit

/-! ## The listing -/

mutual

/-- A type declaration and every one inside it: those among its members come before those in its
bodies. -/
def TypeDecl.declarations : TypeDecl → List TypeDecl
  | ⟨h, ms⟩ => ⟨h, ms⟩ :: (Member.typeDeclarations ms ++ Member.bodyDeclarations ms)

/-- The declarations in the member types. -/
def Member.typeDeclarations : List Member → List TypeDecl
  | [] => []
  | .type d :: ms => d.declarations ++ Member.typeDeclarations ms
  | .method _ :: ms => Member.typeDeclarations ms
  | .initializer _ :: ms => Member.typeDeclarations ms
  | .field _ :: ms => Member.typeDeclarations ms

/-- The declarations in the bodies of methods and initializer blocks. -/
def Member.bodyDeclarations : List Member → List TypeDecl
  | [] => []
  | .type _ :: ms => Member.bodyDeclarations ms
  | .method ⟨_, none⟩ :: ms => Member.bodyDeclarations ms
  | .method ⟨_, some ⟨_, ss⟩⟩ :: ms => Stmt.declarationsOf ss ++ Member.bodyDeclarations ms
  | .initializer ⟨_, _, ⟨_, ss⟩⟩ :: ms => Stmt.declarationsOf ss ++ Member.bodyDeclarations ms
  | .field _ :: ms => Member.bodyDeclarations ms

/-- The declarations in a statement. -/
def Stmt.declarations : Stmt → List TypeDecl
  | .localType _ d => d.declarations
  | .block _ ⟨_, ss⟩ => Stmt.declarationsOf ss
  | .ifElse _ _ t none => t.declarations
  | .ifElse _ _ t (some e) => t.declarations ++ e.declarations
  | .whileLoop _ _ b => b.declarations
  | .forLoop _ init _ _ b => Stmt.declarationsOf init ++ b.declarations
  | .tryCatch _ ⟨_, ss⟩ cs none => Stmt.declarationsOf ss ++ CatchClause.declarationsOf cs
  | .tryCatch _ ⟨_, ss⟩ cs (some ⟨_, fs⟩) =>
    Stmt.declarationsOf ss ++ CatchClause.declarationsOf cs ++ Stmt.declarationsOf fs
  | .expression .. => []
  | .localVariable .. => []
  | .returnValue .. => []
  | .throwValue .. => []
  | .superCall .. => []
  | .thisCall .. => []
  | .empty _ => []

def Stmt.declarationsOf : List Stmt → List TypeDecl
  | [] => []
  | s :: ss => s.declarations ++ Stmt.declarationsOf ss

def CatchClause.declarationsOf : List CatchClause → List TypeDecl
  | [] => []
  | ⟨_, _, ⟨_, ss⟩⟩ :: cs => Stmt.declarationsOf ss ++ CatchClause.declarationsOf cs

end

/-- Every type declaration of a unit, at any depth. -/
def CompilationUnit.declarations (u : CompilationUnit) : List TypeDecl :=
  u.types.flatMap TypeDecl.declarations

theorem TypeDecl.mem_declarations_self (d : TypeDecl) : d ∈ d.declarations := by
  cases d
  simp only [TypeDecl.declarations]
  exact List.mem_cons_self

/-! ## One type at a time -/

mutual

theorem Stmt.declarations_eq : ∀ s : Stmt,
    s.declarations = s.localTypes.flatMap TypeDecl.declarations
  | .localType _ d => by
    simp [Stmt.declarations, Stmt.localTypes, List.flatMap_nil, List.append_nil]
  | .block _ ⟨_, ss⟩ => by simp [Stmt.declarations, Stmt.localTypes, Stmt.declarationsOf_eq ss]
  | .ifElse _ _ t none => by simp [Stmt.declarations, Stmt.localTypes, Stmt.declarations_eq t]
  | .ifElse _ _ t (some e) => by
    simp [Stmt.declarations, Stmt.localTypes, Stmt.declarations_eq t, Stmt.declarations_eq e]
  | .whileLoop _ _ b => by simp [Stmt.declarations, Stmt.localTypes, Stmt.declarations_eq b]
  | .forLoop _ init _ _ b => by
    simp [Stmt.declarations, Stmt.localTypes, Stmt.declarationsOf_eq init, Stmt.declarations_eq b]
  | .tryCatch _ ⟨_, ss⟩ cs none => by
    simp [Stmt.declarations, Stmt.localTypes, Stmt.declarationsOf_eq ss,
      CatchClause.declarationsOf_eq cs]
  | .tryCatch _ ⟨_, ss⟩ cs (some ⟨_, fs⟩) => by
    simp [Stmt.declarations, Stmt.localTypes, Stmt.declarationsOf_eq ss,
      CatchClause.declarationsOf_eq cs, Stmt.declarationsOf_eq fs]
  | .expression .. => rfl
  | .localVariable .. => rfl
  | .returnValue .. => rfl
  | .throwValue .. => rfl
  | .superCall .. => rfl
  | .thisCall .. => rfl
  | .empty _ => rfl

/-- The walk over the local types of a body misses no declaration. -/
theorem Stmt.declarationsOf_eq : ∀ ss : List Stmt,
    Stmt.declarationsOf ss = (Stmt.localTypesOf ss).flatMap TypeDecl.declarations
  | [] => rfl
  | s :: ss => by
    simp [Stmt.declarationsOf, Stmt.localTypesOf, Stmt.declarations_eq s, Stmt.declarationsOf_eq ss]

theorem CatchClause.declarationsOf_eq : ∀ cs : List CatchClause,
    CatchClause.declarationsOf cs = (CatchClause.localTypesOf cs).flatMap TypeDecl.declarations
  | [] => rfl
  | ⟨_, _, ⟨_, ss⟩⟩ :: cs => by
    simp [CatchClause.declarationsOf, CatchClause.localTypesOf, Stmt.declarationsOf_eq ss,
      CatchClause.declarationsOf_eq cs]

end

theorem Stmt.localTypesOf_eq_flatMap (ss : List Stmt) :
    Stmt.localTypesOf ss = ss.flatMap Stmt.localTypes := by
  induction ss with
  | nil => rfl
  | cons s ss ih => rw [Stmt.localTypesOf, List.flatMap_cons, ih]

theorem Stmt.localTypesOf_append (ss rest : List Stmt) :
    Stmt.localTypesOf (ss ++ rest) = Stmt.localTypesOf ss ++ Stmt.localTypesOf rest := by
  simp only [Stmt.localTypesOf_eq_flatMap, List.flatMap_append]

theorem Member.typeDeclarations_eq (ms : List Member) :
    Member.typeDeclarations ms = (ms.filterMap Member.asType).flatMap TypeDecl.declarations := by
  induction ms with
  | nil => rfl
  | cons m ms ih =>
    cases m <;>
      simp only [Member.typeDeclarations, List.filterMap_cons, Member.asType, List.flatMap_cons, ih]

/-- The local types of the body of a member. -/
def Member.localTypes (m : Member) : List TypeDecl := Stmt.localTypesOf (m.body.getD [])

/-- The types directly inside a type: its member types, then the local types of its bodies. -/
def TypeDecl.inner (d : TypeDecl) : List TypeDecl :=
  d.memberTypes ++ d.members.flatMap Member.localTypes

/-- The types directly inside a member. -/
def Member.inner (m : Member) : List TypeDecl := m.asType.toList ++ m.localTypes

theorem TypeDecl.mem_inner {d x : TypeDecl} : x ∈ d.inner ↔ ∃ m ∈ d.members, x ∈ m.inner := by
  simp only [TypeDecl.inner, TypeDecl.memberTypes, Member.inner, List.mem_append,
    List.mem_filterMap, List.mem_flatMap, Option.mem_toList]
  constructor
  · rintro (⟨m, hm, type⟩ | ⟨m, hm, local'⟩)
    · exact ⟨m, hm, .inl type⟩
    · exact ⟨m, hm, .inr local'⟩
  · rintro ⟨m, hm, type | local'⟩
    · exact .inl ⟨m, hm, type⟩
    · exact .inr ⟨m, hm, local'⟩

/-- The declarations of a type are the type and the declarations of the types directly inside. -/
theorem TypeDecl.declarations_eq (d : TypeDecl) :
    d.declarations = d :: d.inner.flatMap TypeDecl.declarations := by
  obtain ⟨h, ms⟩ := d
  have bodies : Member.bodyDeclarations ms =
      (ms.flatMap Member.localTypes).flatMap TypeDecl.declarations := by
    induction ms with
    | nil => rfl
    | cons m ms ih =>
      rcases m with d | ⟨h, _ | ⟨i, ss⟩⟩ | ⟨i, s, ⟨b, ss⟩⟩ | f <;>
        simp only [Member.bodyDeclarations, ih, Stmt.declarationsOf_eq, List.flatMap_cons,
          List.flatMap_append] <;>
        rfl
  rw [TypeDecl.declarations, Member.typeDeclarations_eq, bodies, TypeDecl.inner,
    TypeDecl.memberTypes, List.flatMap_append]

/-- The first type is the second or one of its member types, at any depth. -/
inductive TypeDecl.IsWithin : TypeDecl → TypeDecl → Prop where
  | self (d : TypeDecl) : IsWithin d d
  | member {x c d : TypeDecl} : c ∈ d.memberTypes → IsWithin x c → IsWithin x d

theorem TypeDecl.IsWithin.mem_declarations {x d : TypeDecl} (within : x.IsWithin d) :
    x ∈ d.declarations := by
  induction within with
  | self => exact x.mem_declarations_self
  | @member c d hc _ ih =>
    rw [TypeDecl.declarations_eq]
    have inside : c ∈ d.inner := List.mem_append_left _ hc
    exact List.mem_cons_of_mem _ (List.mem_flatMap.mpr ⟨c, inside, ih⟩)

/-! ## Erasing -/

section

variable (h : Option MethodId → Option MethodId)

mutual

/-- The declarations of an erased tree are the erased declarations of the tree. -/
theorem TypeDecl.declarations_erase : ∀ d : TypeDecl,
    (d.erase h).declarations = d.declarations.map (TypeDecl.erase h)
  | ⟨d, ms⟩ => by
    simp [TypeDecl.erase, TypeDecl.declarations, Member.typeDeclarations_erase ms,
      Member.bodyDeclarations_erase ms]

theorem Member.typeDeclarations_erase : ∀ ms : List Member,
    Member.typeDeclarations (Member.eraseAll h ms) =
      (Member.typeDeclarations ms).map (TypeDecl.erase h)
  | [] => rfl
  | .type d :: ms => by
    simp [Member.eraseAll, Member.erase, Member.typeDeclarations, TypeDecl.declarations_erase d,
      Member.typeDeclarations_erase ms]
  | .method ⟨_, none⟩ :: ms => by
    simp [Member.eraseAll, Member.erase, Member.typeDeclarations, Member.typeDeclarations_erase ms]
  | .method ⟨_, some _⟩ :: ms => by
    simp [Member.eraseAll, Member.erase, Member.typeDeclarations, Member.typeDeclarations_erase ms]
  | .initializer ⟨_, _, _⟩ :: ms => by
    simp [Member.eraseAll, Member.erase, Member.typeDeclarations, Member.typeDeclarations_erase ms]
  | .field _ :: ms => by
    simp [Member.eraseAll, Member.erase, Member.typeDeclarations, Member.typeDeclarations_erase ms]

theorem Member.bodyDeclarations_erase : ∀ ms : List Member,
    Member.bodyDeclarations (Member.eraseAll h ms) =
      (Member.bodyDeclarations ms).map (TypeDecl.erase h)
  | [] => rfl
  | .type d :: ms => by
    simp [Member.eraseAll, Member.erase, Member.bodyDeclarations, Member.bodyDeclarations_erase ms]
  | .method ⟨_, none⟩ :: ms => by
    simp [Member.eraseAll, Member.erase, Member.bodyDeclarations, Member.bodyDeclarations_erase ms]
  | .method ⟨_, some ⟨_, ss⟩⟩ :: ms => by
    simp [Member.eraseAll, Member.erase, Block.erase, Member.bodyDeclarations,
      Stmt.declarationsOf_erase ss, Member.bodyDeclarations_erase ms]
  | .initializer ⟨_, _, ⟨_, ss⟩⟩ :: ms => by
    simp [Member.eraseAll, Member.erase, Block.erase, Member.bodyDeclarations,
      Stmt.declarationsOf_erase ss, Member.bodyDeclarations_erase ms]
  | .field _ :: ms => by
    simp [Member.eraseAll, Member.erase, Member.bodyDeclarations, Member.bodyDeclarations_erase ms]

theorem Stmt.declarations_erase : ∀ s : Stmt,
    (s.erase h).declarations = s.declarations.map (TypeDecl.erase h)
  | .localType _ d => by simp [Stmt.erase, Stmt.declarations, TypeDecl.declarations_erase d]
  | .block _ ⟨_, ss⟩ => by
    simp [Stmt.erase, Block.erase, Stmt.declarations, Stmt.declarationsOf_erase ss]
  | .ifElse _ _ t none => by simp [Stmt.erase, Stmt.declarations, Stmt.declarations_erase t]
  | .ifElse _ _ t (some e) => by
    simp [Stmt.erase, Stmt.declarations, Stmt.declarations_erase t, Stmt.declarations_erase e]
  | .whileLoop _ _ b => by simp [Stmt.erase, Stmt.declarations, Stmt.declarations_erase b]
  | .forLoop _ init _ _ b => by
    simp [Stmt.erase, Stmt.declarations, Stmt.declarationsOf_erase init, Stmt.declarations_erase b]
  | .tryCatch _ ⟨_, ss⟩ cs none => by
    simp [Stmt.erase, Block.erase, Stmt.declarations, Stmt.declarationsOf_erase ss,
      CatchClause.declarationsOf_erase cs]
  | .tryCatch _ ⟨_, ss⟩ cs (some ⟨_, fs⟩) => by
    simp [Stmt.erase, Block.erase, Stmt.declarations, Stmt.declarationsOf_erase ss,
      CatchClause.declarationsOf_erase cs, Stmt.declarationsOf_erase fs]
  | .expression .. => rfl
  | .localVariable .. => rfl
  | .returnValue .. => rfl
  | .throwValue .. => rfl
  | .superCall .. => rfl
  | .thisCall .. => rfl
  | .empty _ => rfl

theorem Stmt.declarationsOf_erase : ∀ ss : List Stmt,
    Stmt.declarationsOf (Stmt.eraseAll h ss) = (Stmt.declarationsOf ss).map (TypeDecl.erase h)
  | [] => rfl
  | s :: ss => by
    simp [Stmt.eraseAll, Stmt.declarationsOf, Stmt.declarations_erase s,
      Stmt.declarationsOf_erase ss]

theorem CatchClause.declarationsOf_erase : ∀ cs : List CatchClause,
    CatchClause.declarationsOf (CatchClause.eraseAll h cs) =
      (CatchClause.declarationsOf cs).map (TypeDecl.erase h)
  | [] => rfl
  | ⟨_, _, ⟨_, ss⟩⟩ :: cs => by
    simp [CatchClause.eraseAll, Block.erase, CatchClause.declarationsOf,
      Stmt.declarationsOf_erase ss, CatchClause.declarationsOf_erase cs]

end

mutual

/-- The local types of an erased statement are the erased local types. -/
theorem Stmt.localTypes_erase : ∀ s : Stmt,
    (s.erase h).localTypes = s.localTypes.map (TypeDecl.erase h)
  | .localType _ d => by simp [Stmt.erase, Stmt.localTypes]
  | .block _ ⟨_, ss⟩ => by
    simp [Stmt.erase, Block.erase, Stmt.localTypes, Stmt.localTypesOf_erase ss]
  | .ifElse _ _ t none => by simp [Stmt.erase, Stmt.localTypes, Stmt.localTypes_erase t]
  | .ifElse _ _ t (some e) => by
    simp [Stmt.erase, Stmt.localTypes, Stmt.localTypes_erase t, Stmt.localTypes_erase e]
  | .whileLoop _ _ b => by simp [Stmt.erase, Stmt.localTypes, Stmt.localTypes_erase b]
  | .forLoop _ init _ _ b => by
    simp [Stmt.erase, Stmt.localTypes, Stmt.localTypesOf_erase init, Stmt.localTypes_erase b]
  | .tryCatch _ ⟨_, ss⟩ cs none => by
    simp [Stmt.erase, Block.erase, Stmt.localTypes, Stmt.localTypesOf_erase ss,
      CatchClause.localTypesOf_erase cs]
  | .tryCatch _ ⟨_, ss⟩ cs (some ⟨_, fs⟩) => by
    simp [Stmt.erase, Block.erase, Stmt.localTypes, Stmt.localTypesOf_erase ss,
      CatchClause.localTypesOf_erase cs, Stmt.localTypesOf_erase fs]
  | .expression .. => rfl
  | .localVariable .. => rfl
  | .returnValue .. => rfl
  | .throwValue .. => rfl
  | .superCall .. => rfl
  | .thisCall .. => rfl
  | .empty _ => rfl

/-- The local types of an erased body are the erased local types of the body. -/
theorem Stmt.localTypesOf_erase : ∀ ss : List Stmt,
    Stmt.localTypesOf (Stmt.eraseAll h ss) = (Stmt.localTypesOf ss).map (TypeDecl.erase h)
  | [] => rfl
  | s :: ss => by
    simp [Stmt.eraseAll, Stmt.localTypesOf, Stmt.localTypes_erase s, Stmt.localTypesOf_erase ss]

theorem CatchClause.localTypesOf_erase : ∀ cs : List CatchClause,
    CatchClause.localTypesOf (CatchClause.eraseAll h cs) =
      (CatchClause.localTypesOf cs).map (TypeDecl.erase h)
  | [] => rfl
  | ⟨_, _, ⟨_, ss⟩⟩ :: cs => by
    simp [CatchClause.eraseAll, Block.erase, CatchClause.localTypesOf, Stmt.localTypesOf_erase ss,
      CatchClause.localTypesOf_erase cs]

end

/-- A local type of one of two bodies that erase alike has a counterpart in the other. -/
theorem Stmt.exists_localType_of_erase {ss ss' : List Stmt}
    (same : Stmt.eraseAll h ss' = Stmt.eraseAll h ss) {x : TypeDecl}
    (found : x ∈ Stmt.localTypesOf ss') :
    ∃ y ∈ Stmt.localTypesOf ss, y.erase h = x.erase h := by
  have erased : x.erase h ∈ (Stmt.localTypesOf ss).map (TypeDecl.erase h) := by
    rw [← Stmt.localTypesOf_erase, ← same, Stmt.localTypesOf_erase]
    exact List.mem_map_of_mem found
  exact List.mem_map.mp erased

/-- A declaration in one of two types that erase alike has a counterpart in the other. -/
theorem TypeDecl.exists_declaration_of_erase {d d' : TypeDecl} (same : d.erase h = d'.erase h)
    {x : TypeDecl} (found : x ∈ d'.declarations) : ∃ y ∈ d.declarations, y.erase h = x.erase h := by
  have erased : x.erase h ∈ d.declarations.map (TypeDecl.erase h) := by
    rw [← TypeDecl.declarations_erase, same, TypeDecl.declarations_erase]
    exact List.mem_map_of_mem found
  exact List.mem_map.mp erased

/-- The local types of an erased member are the erased local types. -/
theorem Member.localTypes_erase (m : Member) :
    (m.erase h).localTypes = m.localTypes.map (TypeDecl.erase h) := by
  rcases m with d | ⟨head, _ | ⟨i, ss⟩⟩ | ⟨i, s, ⟨b, ss⟩⟩ | f
  · rfl
  · rfl
  · exact Stmt.localTypesOf_erase h ss
  · exact Stmt.localTypesOf_erase h ss
  · rfl

theorem Member.asType_erase (m : Member) :
    (m.erase h).asType = m.asType.map (TypeDecl.erase h) := by
  rcases m with d | ⟨head, _ | b⟩ | ⟨i, s, b⟩ | f <;> rfl

/-- The types directly inside an erased type are the erased ones. -/
theorem TypeDecl.inner_erase (d : TypeDecl) :
    (d.erase h).inner = d.inner.map (TypeDecl.erase h) := by
  obtain ⟨head, ms⟩ := d
  simp only [TypeDecl.erase, TypeDecl.inner, TypeDecl.memberTypes, Member.eraseAll_eq_map,
    List.filterMap_map, List.flatMap_map, List.map_append, List.map_filterMap, List.map_flatMap,
    Function.comp_def, Member.asType_erase, Member.localTypes_erase]

/-- A type directly inside one of two types that erase alike has a counterpart in the other. -/
theorem TypeDecl.exists_inner_of_erase {d d' : TypeDecl} (same : d.erase h = d'.erase h)
    {x : TypeDecl} (found : x ∈ d'.inner) : ∃ y ∈ d.inner, y.erase h = x.erase h := by
  have erased : x.erase h ∈ d.inner.map (TypeDecl.erase h) := by
    rw [← TypeDecl.inner_erase, same, TypeDecl.inner_erase]
    exact List.mem_map_of_mem found
  exact List.mem_map.mp erased

end

end ClassInit
