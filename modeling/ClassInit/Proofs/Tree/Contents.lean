import ClassInit.Proofs.Tree.Pieces

/-!
# What a piece of a tree contains

The types that a walk meets are the declarations of the tree in another order
(`TypeDecl.preorder_perm`). Outlines keep what a member contains outside the types inside it
(`Member.contents_of_outline`), and erasing a tree erases its contents
(`TypeDecl.contents_of_erase`).
-/

set_option autoImplicit false

namespace ClassInit

/-! ## The declarations in another order -/

mutual

/-- A type comes before the types inside it in one listing and after them in the other. -/
theorem TypeDecl.preorder_perm : ∀ d : TypeDecl, d.preorder.Perm d.declarations
  | ⟨h, ms⟩ => by
    rw [TypeDecl.preorder, TypeDecl.declarations]
    exact (Member.contentsOf_perm ms).cons _

/-- The types in members are those in the member types and those in the bodies. -/
theorem Member.contentsOf_perm : ∀ ms : List Member,
    (Member.contentsOf ms).types.Perm (Member.typeDeclarations ms ++ Member.bodyDeclarations ms)
  | [] => .refl _
  | .type d :: ms => by
    rw [Member.contentsOf, Member.typeDeclarations, Member.bodyDeclarations, List.append_assoc]
    exact (TypeDecl.preorder_perm d).append (Member.contentsOf_perm ms)
  | .method ⟨h, none⟩ :: ms => by
    simpa [Member.contentsOf, Member.contents, MethodHead.contents, Member.typeDeclarations,
      Member.bodyDeclarations] using Member.contentsOf_perm ms
  | .method ⟨h, some ⟨_, ss⟩⟩ :: ms => by
    have all := (Stmt.contentsOf_perm ss).append (Member.contentsOf_perm ms)
    rw [Member.typeDeclarations, Member.bodyDeclarations]
    simpa [Member.contentsOf, Member.contents, MethodHead.contents] using
      all.trans (List.perm_append_comm_assoc _ _ _)
  | .initializer ⟨_, _, ⟨_, ss⟩⟩ :: ms => by
    have all := (Stmt.contentsOf_perm ss).append (Member.contentsOf_perm ms)
    rw [Member.typeDeclarations, Member.bodyDeclarations]
    exact all.trans (List.perm_append_comm_assoc _ _ _)
  | .field _ :: ms => by
    rw [Member.typeDeclarations, Member.bodyDeclarations]
    exact Member.contentsOf_perm ms

/-- The two listings agree on the types in a statement. -/
theorem Stmt.contents_perm : ∀ s : Stmt, s.contents.types.Perm s.declarations
  | .localType _ d => by
    rw [Stmt.contents, Stmt.declarations]
    exact TypeDecl.preorder_perm d
  | .block _ ⟨_, ss⟩ => by
    rw [Stmt.contents, Stmt.declarations]
    exact Stmt.contentsOf_perm ss
  | .ifElse _ _ t none => by
    rw [Stmt.contents, Stmt.declarations]
    exact Stmt.contents_perm t
  | .ifElse _ _ t (some e) => by
    rw [Stmt.contents, Stmt.declarations]
    exact (Stmt.contents_perm t).append (Stmt.contents_perm e)
  | .whileLoop _ _ b => by
    rw [Stmt.contents, Stmt.declarations]
    exact Stmt.contents_perm b
  | .forLoop _ init _ _ b => by
    simpa [Stmt.contents, Contents.ofHandles, Stmt.declarations] using
      (Stmt.contentsOf_perm init).append (Stmt.contents_perm b)
  | .tryCatch _ ⟨_, ss⟩ cs none => by
    rw [Stmt.contents, Stmt.declarations]
    exact (Stmt.contentsOf_perm ss).append (CatchClause.contentsOf_perm cs)
  | .tryCatch _ ⟨_, ss⟩ cs (some ⟨_, fs⟩) => by
    rw [Stmt.contents, Stmt.declarations]
    exact ((Stmt.contentsOf_perm ss).append (CatchClause.contentsOf_perm cs)).append
      (Stmt.contentsOf_perm fs)
  | .localVariable .. => by simp [Stmt.contents, Stmt.declarations]
  | .expression .. => .refl _
  | .returnValue .. => .refl _
  | .throwValue .. => .refl _
  | .superCall .. => .refl _
  | .thisCall .. => .refl _
  | .empty _ => .refl _

theorem Stmt.contentsOf_perm : ∀ ss : List Stmt,
    (Stmt.contentsOf ss).types.Perm (Stmt.declarationsOf ss)
  | [] => .refl _
  | s :: ss => by
    rw [Stmt.contentsOf, Stmt.declarationsOf]
    exact (Stmt.contents_perm s).append (Stmt.contentsOf_perm ss)

theorem CatchClause.contentsOf_perm : ∀ cs : List CatchClause,
    (CatchClause.contentsOf cs).types.Perm (CatchClause.declarationsOf cs)
  | [] => .refl _
  | ⟨_, x, ⟨_, ss⟩⟩ :: cs => by
    rw [CatchClause.contentsOf, CatchClause.declarationsOf]
    exact (Stmt.contentsOf_perm ss).append (CatchClause.contentsOf_perm cs)

end

/-- Both listings of a unit have the same declarations. -/
theorem CompilationUnit.preorder_perm (u : CompilationUnit) : u.preorder.Perm u.declarations :=
  List.Perm.flatMap_left u.types fun d _ => d.preorder_perm

/-! ## Outlines -/

/-- The contents without the types inside. -/
def Contents.own (c : Contents) : Contents := { c with inner := [], types := [] }

@[simp] theorem Contents.own_append (c d : Contents) : (c ++ d).own = c.own ++ d.own := rfl

mutual

/-- An outline replaces only local types, which are not part of what a statement holds itself. -/
theorem Stmt.contents_outline : ∀ s : Stmt, s.outline.contents.own = s.contents.own
  | .localType .. => rfl
  | .block _ ⟨_, ss⟩ => by simp only [Stmt.outline, Stmt.contents, Stmt.contentsOf_outline ss]
  | .ifElse _ _ t none => by
    simp only [Stmt.outline, Stmt.contents, Contents.own_append, Stmt.contents_outline t]
  | .ifElse _ _ t (some e) => by
    simp only [Stmt.outline, Stmt.contents, Contents.own_append, Stmt.contents_outline t,
      Stmt.contents_outline e]
  | .whileLoop _ _ b => by
    simp only [Stmt.outline, Stmt.contents, Contents.own_append, Stmt.contents_outline b]
  | .forLoop _ init _ _ b => by
    simp only [Stmt.outline, Stmt.contents, Contents.own_append, Stmt.contentsOf_outline init,
      Stmt.contents_outline b]
  | .tryCatch _ ⟨_, ss⟩ cs none => by
    simp only [Stmt.outline, Stmt.contents, Contents.own_append, Stmt.contentsOf_outline ss,
      CatchClause.contentsOf_outline cs]
  | .tryCatch _ ⟨_, ss⟩ cs (some ⟨_, fs⟩) => by
    simp only [Stmt.outline, Stmt.contents, Contents.own_append, Stmt.contentsOf_outline ss,
      CatchClause.contentsOf_outline cs, Stmt.contentsOf_outline fs]
  | .expression .. => rfl
  | .localVariable .. => rfl
  | .returnValue .. => rfl
  | .throwValue .. => rfl
  | .superCall .. => rfl
  | .thisCall .. => rfl
  | .empty _ => rfl

theorem Stmt.contentsOf_outline : ∀ ss : List Stmt,
    (Stmt.contentsOf (Stmt.outlineOf ss)).own = (Stmt.contentsOf ss).own
  | [] => rfl
  | s :: ss => by
    simp only [Stmt.outlineOf, Stmt.contentsOf, Contents.own_append, Stmt.contents_outline s,
      Stmt.contentsOf_outline ss]

theorem CatchClause.contentsOf_outline : ∀ cs : List CatchClause,
    (CatchClause.contentsOf (CatchClause.outlineOf cs)).own = (CatchClause.contentsOf cs).own
  | [] => rfl
  | ⟨_, x, ⟨_, ss⟩⟩ :: cs => by
    simp only [CatchClause.outlineOf, CatchClause.contentsOf, Contents.own_append,
      Stmt.contentsOf_outline ss, CatchClause.contentsOf_outline cs]

end

/-- Members of one outline contain the same outside the types inside them. -/
theorem Member.contents_of_outline {m m' : Member} (same : m'.outline = m.outline) :
    m'.contents.own = m.contents.own := by
  have outlined : ∀ m : Member, m.outline.contents.own = m.contents.own := by
    intro m
    rcases m with d | ⟨h, _ | ⟨i, ss⟩⟩ | ⟨i, isStatic, ⟨b, ss⟩⟩ | f
    · rfl
    · rfl
    · simp only [Member.outline, Member.contents, Contents.own_append, Stmt.contentsOf_outline]
    · simp only [Member.outline, Member.contents, Stmt.contentsOf_outline]
    · rfl
  rw [← outlined, same, outlined]

/-! ## Erasing -/

section

variable (h : Option MethodId → Option MethodId)

def Handle.erase : Handle → Handle
  | .ofType n id => .ofType n id
  | .ofVariable n id => .ofVariable n id
  | .ofMethod n id => .ofMethod n (h id)

/-- What is left of the contents when the tree is erased. -/
def Contents.erase (c : Contents) : Contents :=
  ⟨c.fields, c.methods.map (MethodHead.erase h), c.locals, c.handles.map (Handle.erase h),
    c.inner.map (TypeDecl.erase h), c.types.map (TypeDecl.erase h)⟩

/-- Erasing goes through the contents piece by piece. -/
@[simp] theorem Contents.erase_append (c d : Contents) :
    (c ++ d).erase h = c.erase h ++ d.erase h := by
  show Contents.mk _ _ _ _ _ _ = Contents.mk _ _ _ _ _ _
  simp [Contents.erase]

@[simp] theorem Contents.erase_empty : Contents.empty.erase h = .empty := rfl

@[simp] theorem Contents.erase_ofHandles (hs : List Handle) :
    (Contents.ofHandles hs).erase h = .ofHandles (hs.map (Handle.erase h)) := rfl

@[simp] theorem Contents.erase_ofTypes (inner types : List TypeDecl) :
    (Contents.ofTypes inner types).erase h =
      .ofTypes (inner.map (TypeDecl.erase h)) (types.map (TypeDecl.erase h)) := rfl

mutual

/-- Erasing an expression maps the handles of methods in it and keeps the other places. -/
@[simp] theorem Expr.handles_erase :
    ∀ e : Expr, (e.erase h).handles = e.handles.map (Handle.erase h)
  | .literal .. => rfl
  | .this _ => rfl
  | .name .. => rfl
  | .fieldAccess _ t _ _ => by simp [Expr.erase, Expr.handles, Handle.erase, Expr.handles_erase t]
  | .unary _ _ e => Expr.handles_erase e
  | .step _ _ e => Expr.handles_erase e
  | .binary _ _ l r => by
    simp [Expr.erase, Expr.handles, Expr.handles_erase l, Expr.handles_erase r]
  | .conditional _ c t e => by
    simp [Expr.erase, Expr.handles, Expr.handles_erase c, Expr.handles_erase t,
      Expr.handles_erase e]
  | .parenthesized _ e => Expr.handles_erase e
  | .cast _ _ e => Expr.handles_erase e
  | .assignment _ _ l r => by
    simp [Expr.erase, Expr.handles, Expr.handles_erase l, Expr.handles_erase r]
  | .call _ none _ as _ => by simp [Expr.erase, Expr.handles, Handle.erase, Expr.handlesOf_erase as]
  | .call _ (some r) _ as _ => by
    simp [Expr.erase, Expr.handles, Handle.erase, Expr.handles_erase r, Expr.handlesOf_erase as]
  | .new _ _ as _ => by
    simp [Expr.erase, Expr.handles, TypeName.handle, Handle.erase, Expr.handlesOf_erase as]

@[simp] theorem Expr.handlesOf_erase : ∀ es : List Expr,
    Expr.handlesOf (Expr.eraseAll h es) = (Expr.handlesOf es).map (Handle.erase h)
  | [] => rfl
  | e :: es => by
    simp [Expr.eraseAll, Expr.handlesOf, Expr.handles_erase e, Expr.handlesOf_erase es]

end

@[simp] theorem Expr.handlesIn_erase (e : Option Expr) :
    Expr.handlesIn (e.map (Expr.erase h)) = (Expr.handlesIn e).map (Handle.erase h) := by
  cases e with
  | none => rfl
  | some e => exact e.handles_erase h

@[simp] theorem Fragment.handles_erase (f : Fragment) :
    (f.erase h).handles = f.handles.map (Handle.erase h) := by
  simp [Fragment.handles, Fragment.erase, Handle.erase]

@[simp] theorem Fragment.slot_erase (type : TypeRef) (modifiers : Modifiers) (f : Fragment) :
    (f.erase h).slot type modifiers = f.slot type modifiers := rfl

/-- Erasing variables erases what they hold. -/
@[simp] theorem Fragment.contentsOf_erase (type : TypeRef) (modifiers : Modifiers)
    (fs : List Fragment) :
    Fragment.contentsOf type modifiers (fs.map (Fragment.erase h)) =
      (Fragment.contentsOf type modifiers fs).erase h := by
  induction fs with
  | nil => rfl
  | cons f fs ih =>
    have own : (f.erase h).contents type modifiers = (f.contents type modifiers).erase h := by
      simp [Fragment.contents, Contents.erase]
    simp [Fragment.contentsOf, own, ih]

@[simp] theorem Parameter.contentsOf_erase (ps : List Parameter) :
    (Parameter.contentsOf ps).erase h = Parameter.contentsOf ps := by
  induction ps with
  | nil => rfl
  | cons p ps ih =>
    have own : p.contents.erase h = p.contents := rfl
    simp [Parameter.contentsOf, own, ih]

/-- Erasing a field erases its contents. -/
@[simp] theorem FieldDecl.contents_erase (f : FieldDecl) :
    (f.erase h).contents = f.contents.erase h := by
  simp [FieldDecl.contents, FieldDecl.erase, Contents.erase, List.flatMap_map, List.map_flatMap]

mutual

/-- The types in an erased type are the erased types, in order. -/
theorem TypeDecl.preorder_erase :
    ∀ d : TypeDecl, (d.erase h).preorder = d.preorder.map (TypeDecl.erase h)
  | ⟨d, ms⟩ => by
    simp [TypeDecl.erase, TypeDecl.preorder, Member.contentsOf_erase ms, Contents.erase]

/-- Erasing a member erases its contents. -/
theorem Member.contents_erase : ∀ m : Member, (m.erase h).contents = m.contents.erase h
  | .type d => by simp [Member.erase, Member.contents, TypeDecl.preorder_erase d]
  | .field f => by simp [Member.erase, Member.contents]
  | .method ⟨d, none⟩ => by
    simp [Member.erase, Member.contents]
    rfl
  | .method ⟨d, some ⟨_, ss⟩⟩ => by
    simp [Member.erase, Block.erase, Member.contents, Stmt.contentsOf_erase ss]
    rfl
  | .initializer ⟨_, _, ⟨_, ss⟩⟩ => by
    simp [Member.erase, Block.erase, Member.contents, Stmt.contentsOf_erase ss]

theorem Member.contentsOf_erase : ∀ ms : List Member,
    Member.contentsOf (Member.eraseAll h ms) = (Member.contentsOf ms).erase h
  | [] => rfl
  | m :: ms => by
    simp [Member.eraseAll, Member.contentsOf, Member.contents_erase m, Member.contentsOf_erase ms]

/-- What an erased statement contains is what the statement contains, erased. -/
theorem Stmt.contents_erase : ∀ s : Stmt, (s.erase h).contents = s.contents.erase h
  | .localType _ d => by simp [Stmt.erase, Stmt.contents, TypeDecl.preorder_erase d]
  | .block _ ⟨_, ss⟩ => by simp [Stmt.erase, Block.erase, Stmt.contents, Stmt.contentsOf_erase ss]
  | .ifElse _ _ t none => by simp [Stmt.erase, Stmt.contents, Stmt.contents_erase t]
  | .ifElse _ _ t (some e) => by
    simp [Stmt.erase, Stmt.contents, Stmt.contents_erase t, Stmt.contents_erase e]
  | .whileLoop _ _ b => by simp [Stmt.erase, Stmt.contents, Stmt.contents_erase b]
  | .forLoop _ init _ _ b => by
    simp [Stmt.erase, Stmt.contents, Stmt.contentsOf_erase init, Stmt.contents_erase b]
  | .tryCatch _ ⟨_, ss⟩ cs none => by
    simp [Stmt.erase, Block.erase, Stmt.contents, Stmt.contentsOf_erase ss,
      CatchClause.contentsOf_erase cs]
  | .tryCatch _ ⟨_, ss⟩ cs (some ⟨_, fs⟩) => by
    simp [Stmt.erase, Block.erase, Stmt.contents, Stmt.contentsOf_erase ss,
      CatchClause.contentsOf_erase cs, Stmt.contentsOf_erase fs]
  | .expression .. => by simp [Stmt.erase, Stmt.contents]
  | .localVariable .. => by simp [Stmt.erase, Stmt.contents]
  | .returnValue .. => by simp [Stmt.erase, Stmt.contents]
  | .throwValue .. => by simp [Stmt.erase, Stmt.contents]
  | .superCall .. => by simp [Stmt.erase, Stmt.contents, Handle.erase]
  | .thisCall .. => by simp [Stmt.erase, Stmt.contents, Handle.erase]
  | .empty _ => rfl

theorem Stmt.contentsOf_erase : ∀ ss : List Stmt,
    Stmt.contentsOf (Stmt.eraseAll h ss) = (Stmt.contentsOf ss).erase h
  | [] => rfl
  | s :: ss => by
    simp [Stmt.eraseAll, Stmt.contentsOf, Stmt.contents_erase s, Stmt.contentsOf_erase ss]

theorem CatchClause.contentsOf_erase : ∀ cs : List CatchClause,
    CatchClause.contentsOf (CatchClause.eraseAll h cs) = (CatchClause.contentsOf cs).erase h
  | [] => rfl
  | ⟨_, x, ⟨_, ss⟩⟩ :: cs => by
    have own : x.contents.erase h = x.contents := rfl
    simp [CatchClause.eraseAll, Block.erase, CatchClause.contentsOf, own, Stmt.contentsOf_erase ss,
      CatchClause.contentsOf_erase cs]

end

/-- What copies of a type declare themselves is the same. -/
theorem TypeDecl.contents_of_erase {d d' : TypeDecl} (same : d.erase h = d'.erase h) :
    d.contents.erase h = d'.contents.erase h := by
  obtain ⟨d, ms⟩ := d
  obtain ⟨d', ms'⟩ := d'
  have members : Member.eraseAll h ms = Member.eraseAll h ms' := (TypeDecl.mk.inj same).2
  have heads : d.erase h = d'.erase h := (TypeDecl.mk.inj same).1
  have constants :
      ∀ d : TypeHead, (d.erase h).constantHandles = d.constantHandles.map (Handle.erase h) := by
    intro d
    simp [TypeHead.constantHandles, TypeHead.erase, EnumConstant.erase, List.flatMap_map,
      List.map_flatMap]
  rw [contents, contents, Contents.erase_append, Contents.erase_append, ← Member.contentsOf_erase,
    ← Member.contentsOf_erase, members, Contents.erase_ofHandles, Contents.erase_ofHandles,
    ← constants,
    ← constants, heads]

end

end ClassInit
