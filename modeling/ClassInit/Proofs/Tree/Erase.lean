import ClassInit.Proofs.Step
import ClassInit.Tree.Access
import ClassInit.Tree.Copy

/-!
# Trees without identities

Two trees that differ in nothing but the identities of their nodes are told equal by erasing: `erase
h` clears every node id and passes every method handle through `h`. With `h = id` only the ids go;
with `h = fun _ => none` the method handles go as well. The main statement is that a deep copy
erases to what the copied tree erases to (`Stmt.copyAll_erase`).
-/

set_option autoImplicit false

namespace ClassInit

/-! ## Erasing -/

section

variable (h : Option MethodId → Option MethodId)

def ExprInfo.erase (i : ExprInfo) : ExprInfo := { i with id := .unassigned }

def NodeInfo.erase (i : NodeInfo) : NodeInfo := { i with id := .unassigned }

mutual

/-- The expression without node ids, its method handles passed through `h`. -/
def Expr.erase : Expr → Expr
  | .literal i v => .literal i.erase v
  | .name i n b => .name i.erase n b
  | .this i => .this i.erase
  | .fieldAccess i t n b => .fieldAccess i.erase t.erase n b
  | .unary i op e => .unary i.erase op e.erase
  | .step i op e => .step i.erase op e.erase
  | .binary i op l r => .binary i.erase op l.erase r.erase
  | .conditional i c t e => .conditional i.erase c.erase t.erase e.erase
  | .parenthesized i e => .parenthesized i.erase e.erase
  | .cast i t e => .cast i.erase t e.erase
  | .assignment i op l r => .assignment i.erase op l.erase r.erase
  | .call i none n as b => .call i.erase none n (Expr.eraseAll as) (h b)
  | .call i (some r) n as b => .call i.erase (some r.erase) n (Expr.eraseAll as) (h b)
  | .new i t as b => .new i.erase t (Expr.eraseAll as) (h b)

def Expr.eraseAll : List Expr → List Expr
  | [] => []
  | e :: es => e.erase :: Expr.eraseAll es

end

def Fragment.erase (f : Fragment) : Fragment :=
  { f with initializer := f.initializer.map (Expr.erase h) }

def EnumConstant.erase (c : EnumConstant) : EnumConstant :=
  { c with arguments := Expr.eraseAll h c.arguments }

def FieldDecl.erase (f : FieldDecl) : FieldDecl :=
  { f with id := .unassigned, fragments := f.fragments.map (Fragment.erase h) }

def TypeHead.erase (d : TypeHead) : TypeHead :=
  { d with id := .unassigned, enumConstants := d.enumConstants.map (EnumConstant.erase h) }

def MethodHead.erase (m : MethodHead) : MethodHead :=
  { m with id := .unassigned, binding := h m.binding }

mutual

def Block.erase : Block → Block
  | ⟨i, ss⟩ => ⟨i.erase, Stmt.eraseAll ss⟩

/-- The statement without node ids, its method handles passed through `h`. -/
def Stmt.erase : Stmt → Stmt
  | .expression i e => .expression i.erase (e.erase h)
  | .localVariable i m t fs => .localVariable i.erase m t (fs.map (Fragment.erase h))
  | .block i b => .block i.erase b.erase
  | .ifElse i c t none => .ifElse i.erase (c.erase h) t.erase none
  | .ifElse i c t (some e) => .ifElse i.erase (c.erase h) t.erase (some e.erase)
  | .whileLoop i c b => .whileLoop i.erase (c.erase h) b.erase
  | .forLoop i init c us b =>
    .forLoop i.erase (Stmt.eraseAll init) (c.map (Expr.erase h)) (Expr.eraseAll h us) b.erase
  | .tryCatch i b cs none => .tryCatch i.erase b.erase (CatchClause.eraseAll cs) none
  | .tryCatch i b cs (some f) => .tryCatch i.erase b.erase (CatchClause.eraseAll cs) (some f.erase)
  | .returnValue i e => .returnValue i.erase (e.map (Expr.erase h))
  | .throwValue i e => .throwValue i.erase (e.erase h)
  | .superCall i as b => .superCall i.erase (Expr.eraseAll h as) (h b)
  | .thisCall i as b => .thisCall i.erase (Expr.eraseAll h as) (h b)
  | .localType i d => .localType i.erase d.erase
  | .empty i => .empty i.erase

def Stmt.eraseAll : List Stmt → List Stmt
  | [] => []
  | s :: ss => s.erase :: Stmt.eraseAll ss

def CatchClause.eraseAll : List CatchClause → List CatchClause
  | [] => []
  | ⟨sp, x, b⟩ :: cs => ⟨sp, x, b.erase⟩ :: CatchClause.eraseAll cs

def Member.erase : Member → Member
  | .type d => .type d.erase
  | .method ⟨m, none⟩ => .method ⟨m.erase h, none⟩
  | .method ⟨m, some b⟩ => .method ⟨m.erase h, some b.erase⟩
  | .initializer ⟨i, s, b⟩ => .initializer ⟨i.erase, s, b.erase⟩
  | .field f => .field (f.erase h)

def Member.eraseAll : List Member → List Member
  | [] => []
  | m :: ms => m.erase :: Member.eraseAll ms

/-- The declaration without node ids, its method handles passed through `h`. -/
def TypeDecl.erase : TypeDecl → TypeDecl
  | ⟨d, ms⟩ => ⟨d.erase h, Member.eraseAll ms⟩

end

/-! ## Erasing lists -/

/-- Erasing goes through a list one expression at a time. -/
theorem Expr.eraseAll_eq_map : ∀ es, Expr.eraseAll h es = es.map (Expr.erase h)
  | [] => by rw [Expr.eraseAll, List.map_nil]
  | e :: es => by rw [Expr.eraseAll, Expr.eraseAll_eq_map es, List.map_cons]

/-- Erasing goes through a list one statement at a time. -/
theorem Stmt.eraseAll_eq_map : ∀ ss, Stmt.eraseAll h ss = ss.map (Stmt.erase h)
  | [] => by rw [Stmt.eraseAll, List.map_nil]
  | s :: ss => by rw [Stmt.eraseAll, Stmt.eraseAll_eq_map ss, List.map_cons]

/-- Erasing goes through a list one member at a time. -/
theorem Member.eraseAll_eq_map : ∀ ms, Member.eraseAll h ms = ms.map (Member.erase h)
  | [] => by rw [Member.eraseAll, List.map_nil]
  | m :: ms => by rw [Member.eraseAll, Member.eraseAll_eq_map ms, List.map_cons]

end

/-! ## Copies -/

/-- A new id is the only difference that a copy makes to the data of an expression. -/
@[simp] theorem ExprInfo.renew_erase (i : ExprInfo) (s : IdSupply) :
    (i.renew s).1.erase = i.erase := rfl

@[simp] theorem NodeInfo.renew_erase (i : NodeInfo) (s : IdSupply) :
    (i.renew s).1.erase = i.erase := rfl

/-- Copies of the items of a list erase like the items, if a single copy does. -/
theorem mapM_fst_map {α β : Type} {f : α → Numbered α} {g : α → β}
    (single : ∀ a s, g (f a s).1 = g a) (as : List α) (s : IdSupply) :
    ((as.mapM f s).1).map g = as.map g := by
  induction as generalizing s with
  | nil => rfl
  | cons a as ih =>
    rw [List.mapM_cons, state_bind, state_bind, state_pure, List.map_cons,
      List.map_cons, single, ih]

section

variable (h : Option MethodId → Option MethodId)

mutual

/-- A copy of an expression is the expression, up to ids. -/
@[simp] theorem Expr.copy_erase : ∀ (e : Expr) (s : IdSupply), (e.copy s).1.erase h = e.erase h
  | .literal i v, s => by simp [Expr.copy, Expr.erase]
  | .name i n b, s => by simp [Expr.copy, Expr.erase]
  | .this i, s => by simp [Expr.copy, Expr.erase]
  | .fieldAccess i t n b, s => by simp [Expr.copy, Expr.erase, Expr.copy_erase t]
  | .unary i op e, s => by simp [Expr.copy, Expr.erase, Expr.copy_erase e]
  | .step i op e, s => by simp [Expr.copy, Expr.erase, Expr.copy_erase e]
  | .binary i op l r, s => by simp [Expr.copy, Expr.erase, Expr.copy_erase l, Expr.copy_erase r]
  | .conditional i c t e, s => by
    simp [Expr.copy, Expr.erase, Expr.copy_erase c, Expr.copy_erase t, Expr.copy_erase e]
  | .parenthesized i e, s => by simp [Expr.copy, Expr.erase, Expr.copy_erase e]
  | .cast i t e, s => by simp [Expr.copy, Expr.erase, Expr.copy_erase e]
  | .assignment i op l r, s => by simp [Expr.copy, Expr.erase, Expr.copy_erase l, Expr.copy_erase r]
  | .call i none n as b, s => by simp [Expr.copy, Expr.erase, Expr.copyAll_erase as]
  | .call i (some r) n as b, s => by
    simp [Expr.copy, Expr.erase, Expr.copy_erase r, Expr.copyAll_erase as]
  | .new i t as b, s => by simp [Expr.copy, Expr.erase, Expr.copyAll_erase as]

@[simp] theorem Expr.copyAll_erase : ∀ (es : List Expr) (s : IdSupply),
    Expr.eraseAll h (Expr.copyAll es s).1 = Expr.eraseAll h es
  | [], s => rfl
  | e :: es, s => by simp [Expr.copyAll, Expr.eraseAll, Expr.copy_erase e, Expr.copyAll_erase es]

end

@[simp] theorem Expr.copyOption_erase (e : Option Expr) (s : IdSupply) :
    (Expr.copyOption e s).1.map (Expr.erase h) = e.map (Expr.erase h) := by
  cases e with
  | none => rfl
  | some e =>
    simp [Expr.copyOption]

/-- Copying a variable with its initializer changes ids only. -/
@[simp] theorem Fragment.copy_erase (f : Fragment) (s : IdSupply) :
    (f.copy s).1.erase h = f.erase h := by
  simp [Fragment.copy, Fragment.erase]

@[simp] theorem EnumConstant.copy_erase (c : EnumConstant) (s : IdSupply) :
    (c.copy s).1.erase h = c.erase h := by
  simp [EnumConstant.copy, EnumConstant.erase]

@[simp] theorem FieldDecl.copy_erase (f : FieldDecl) (s : IdSupply) :
    (f.copy s).1.erase h = f.erase h := by
  simp [FieldDecl.copy, FieldDecl.erase, mapM_fst_map (Fragment.copy_erase h)]

/-- Copying the head of a type changes ids only, those of enum constants included. -/
@[simp] theorem TypeHead.copy_erase (d : TypeHead) (s : IdSupply) :
    (d.copy s).1.erase h = d.erase h := by
  simp [TypeHead.copy, TypeHead.erase, mapM_fst_map (EnumConstant.copy_erase h)]

@[simp] theorem MethodHead.copy_erase (m : MethodHead) (s : IdSupply) :
    (m.copy s).1.erase h = m.erase h := rfl

mutual

theorem Block.copy_erase : ∀ (b : Block) (s : IdSupply), (b.copy s).1.erase h = b.erase h
  | ⟨i, ss⟩, s => by simp [Block.copy, Block.erase, Stmt.copyAll_erase ss]

/-- A copy of a statement is the statement, up to ids. The four walks over statements and
declarations prove it together. -/
theorem Stmt.copy_erase : ∀ (x : Stmt) (s : IdSupply), (x.copy s).1.erase h = x.erase h
  | .expression i e, s => by simp [Stmt.copy, Stmt.erase]
  | .localVariable i m t fs, s => by
    simp [Stmt.copy, Stmt.erase, mapM_fst_map (Fragment.copy_erase h)]
  | .block i b, s => by simp [Stmt.copy, Stmt.erase, Block.copy_erase b]
  | .ifElse i c t none, s => by simp [Stmt.copy, Stmt.erase, Stmt.copy_erase t]
  | .ifElse i c t (some e), s => by
    simp [Stmt.copy, Stmt.erase, Stmt.copy_erase t, Stmt.copy_erase e]
  | .whileLoop i c b, s => by simp [Stmt.copy, Stmt.erase, Stmt.copy_erase b]
  | .forLoop i init c us b, s => by
    simp [Stmt.copy, Stmt.erase, Stmt.copyAll_erase init, Stmt.copy_erase b]
  | .tryCatch i b cs none, s => by
    simp [Stmt.copy, Stmt.erase, Block.copy_erase b, CatchClause.copyAll_erase cs]
  | .tryCatch i b cs (some f), s => by
    simp [Stmt.copy, Stmt.erase, Block.copy_erase b, CatchClause.copyAll_erase cs,
      Block.copy_erase f]
  | .returnValue i e, s => by simp [Stmt.copy, Stmt.erase]
  | .throwValue i e, s => by simp [Stmt.copy, Stmt.erase]
  | .superCall i as b, s => by simp [Stmt.copy, Stmt.erase]
  | .thisCall i as b, s => by simp [Stmt.copy, Stmt.erase]
  | .localType i d, s => by simp [Stmt.copy, Stmt.erase, TypeDecl.copy_erase d]
  | .empty i, s => by simp [Stmt.copy, Stmt.erase]

theorem Stmt.copyAll_erase : ∀ (ss : List Stmt) (s : IdSupply),
    Stmt.eraseAll h (Stmt.copyAll ss s).1 = Stmt.eraseAll h ss
  | [], s => rfl
  | x :: ss, s => by simp [Stmt.copyAll, Stmt.eraseAll, Stmt.copy_erase x, Stmt.copyAll_erase ss]

theorem CatchClause.copyAll_erase : ∀ (cs : List CatchClause) (s : IdSupply),
    CatchClause.eraseAll h (CatchClause.copyAll cs s).1 = CatchClause.eraseAll h cs
  | [], s => rfl
  | ⟨sp, x, b⟩ :: cs, s => by
    simp [CatchClause.copyAll, CatchClause.eraseAll, Block.copy_erase b,
      CatchClause.copyAll_erase cs]

/-- A copy of a member is the member, up to ids, with the types in it. -/
theorem Member.copy_erase : ∀ (m : Member) (s : IdSupply), (m.copy s).1.erase h = m.erase h
  | .type d, s => by simp [Member.copy, Member.erase, TypeDecl.copy_erase d]
  | .method ⟨m, none⟩, s => by simp [Member.copy, Member.erase]
  | .method ⟨m, some b⟩, s => by simp [Member.copy, Member.erase, Block.copy_erase b]
  | .initializer ⟨i, once, b⟩, s => by simp [Member.copy, Member.erase, Block.copy_erase b]
  | .field f, s => by simp [Member.copy, Member.erase]

theorem Member.copyAll_erase : ∀ (ms : List Member) (s : IdSupply),
    Member.eraseAll h (Member.copyAll ms s).1 = Member.eraseAll h ms
  | [], s => rfl
  | m :: ms, s => by
    simp [Member.copyAll, Member.eraseAll, Member.copy_erase m, Member.copyAll_erase ms]

/-- A copy of a type is the type, up to ids. -/
theorem TypeDecl.copy_erase : ∀ (d : TypeDecl) (s : IdSupply), (d.copy s).1.erase h = d.erase h
  | ⟨d, ms⟩, s => by simp [TypeDecl.copy, TypeDecl.erase, Member.copyAll_erase ms]

end

end

/-! ## Erasing twice -/

@[simp] theorem ExprInfo.erase_erase (i : ExprInfo) : i.erase.erase = i.erase := rfl

@[simp] theorem NodeInfo.erase_erase (i : NodeInfo) : i.erase.erase = i.erase := rfl

section

variable (g h : Option MethodId → Option MethodId)

mutual

/-- Erasing twice maps the handles of methods by both functions. -/
@[simp] theorem Expr.erase_erase : ∀ e : Expr, (e.erase g).erase h = e.erase (h ∘ g)
  | .literal .. => rfl
  | .name .. => rfl
  | .this _ => rfl
  | .fieldAccess i t n b => by simp [Expr.erase, Expr.erase_erase t]
  | .unary i op e => by simp [Expr.erase, Expr.erase_erase e]
  | .step i op e => by simp [Expr.erase, Expr.erase_erase e]
  | .binary i op l r => by simp [Expr.erase, Expr.erase_erase l, Expr.erase_erase r]
  | .conditional i c t e => by
    simp [Expr.erase, Expr.erase_erase c, Expr.erase_erase t, Expr.erase_erase e]
  | .parenthesized i e => by simp [Expr.erase, Expr.erase_erase e]
  | .cast i t e => by simp [Expr.erase, Expr.erase_erase e]
  | .assignment i op l r => by simp [Expr.erase, Expr.erase_erase l, Expr.erase_erase r]
  | .call i none n as b => by simp [Expr.erase, Expr.eraseAll_eraseAll as]
  | .call i (some r) n as b => by simp [Expr.erase, Expr.erase_erase r, Expr.eraseAll_eraseAll as]
  | .new i t as b => by simp [Expr.erase, Expr.eraseAll_eraseAll as]

/-- The same for the expressions of a list. -/
@[simp] theorem Expr.eraseAll_eraseAll : ∀ es : List Expr,
    Expr.eraseAll h (Expr.eraseAll g es) = Expr.eraseAll (h ∘ g) es
  | [] => rfl
  | e :: es => by simp [Expr.eraseAll, Expr.erase_erase e, Expr.eraseAll_eraseAll es]

end

/-- The form that erasing twice takes under a map. -/
@[simp] theorem Expr.erase_comp_erase :
    Expr.erase h ∘ Expr.erase g = Expr.erase (h ∘ g) := funext (Expr.erase_erase g h)

@[simp] theorem Fragment.erase_erase (f : Fragment) : (f.erase g).erase h = f.erase (h ∘ g) := by
  simp [Fragment.erase]

@[simp] theorem EnumConstant.erase_erase (c : EnumConstant) :
    (c.erase g).erase h = c.erase (h ∘ g) := by
  simp [EnumConstant.erase]

@[simp] theorem FieldDecl.erase_erase (f : FieldDecl) : (f.erase g).erase h = f.erase (h ∘ g) := by
  simp [FieldDecl.erase]

@[simp] theorem TypeHead.erase_erase (d : TypeHead) : (d.erase g).erase h = d.erase (h ∘ g) := by
  simp [TypeHead.erase]

mutual

/-- Erasing twice is erasing once, with both functions on handles, in all that a block holds. -/
theorem Block.erase_erase : ∀ b : Block, (b.erase g).erase h = b.erase (h ∘ g)
  | ⟨i, ss⟩ => by simp [Block.erase, Stmt.eraseAll_eraseAll ss]

/-- Erasing twice passes the method handles through both functions. -/
theorem Stmt.erase_erase : ∀ s : Stmt, (s.erase g).erase h = s.erase (h ∘ g)
  | .expression i e => by simp [Stmt.erase]
  | .localVariable i m t fs => by simp [Stmt.erase]
  | .block i b => by simp [Stmt.erase, Block.erase_erase b]
  | .ifElse i c t none => by simp [Stmt.erase, Stmt.erase_erase t]
  | .ifElse i c t (some e) => by simp [Stmt.erase, Stmt.erase_erase t, Stmt.erase_erase e]
  | .whileLoop i c b => by simp [Stmt.erase, Stmt.erase_erase b]
  | .forLoop i init c us b => by simp [Stmt.erase, Stmt.eraseAll_eraseAll init, Stmt.erase_erase b]
  | .tryCatch i b cs none => by
    simp [Stmt.erase, Block.erase_erase b, CatchClause.eraseAll_eraseAll cs]
  | .tryCatch i b cs (some f) => by
    simp [Stmt.erase, Block.erase_erase b, CatchClause.eraseAll_eraseAll cs, Block.erase_erase f]
  | .returnValue i e => by simp [Stmt.erase]
  | .throwValue i e => by simp [Stmt.erase]
  | .superCall i as b => by simp [Stmt.erase]
  | .thisCall i as b => by simp [Stmt.erase]
  | .localType i d => by simp [Stmt.erase, TypeDecl.erase_erase d]
  | .empty _ => rfl

theorem Stmt.eraseAll_eraseAll : ∀ ss : List Stmt,
    Stmt.eraseAll h (Stmt.eraseAll g ss) = Stmt.eraseAll (h ∘ g) ss
  | [] => rfl
  | s :: ss => by simp [Stmt.eraseAll, Stmt.erase_erase s, Stmt.eraseAll_eraseAll ss]

theorem CatchClause.eraseAll_eraseAll : ∀ cs : List CatchClause,
    CatchClause.eraseAll h (CatchClause.eraseAll g cs) = CatchClause.eraseAll (h ∘ g) cs
  | [] => rfl
  | ⟨sp, x, b⟩ :: cs => by
    simp [CatchClause.eraseAll, Block.erase_erase b, CatchClause.eraseAll_eraseAll cs]

theorem Member.erase_erase : ∀ m : Member, (m.erase g).erase h = m.erase (h ∘ g)
  | .type d => by simp [Member.erase, TypeDecl.erase_erase d]
  | .method ⟨m, none⟩ => rfl
  | .method ⟨m, some b⟩ => by simp [Member.erase, MethodHead.erase, Block.erase_erase b]
  | .initializer ⟨i, s, b⟩ => by simp [Member.erase, Block.erase_erase b]
  | .field f => by simp [Member.erase]

theorem Member.eraseAll_eraseAll : ∀ ms : List Member,
    Member.eraseAll h (Member.eraseAll g ms) = Member.eraseAll (h ∘ g) ms
  | [] => rfl
  | m :: ms => by simp [Member.eraseAll, Member.erase_erase m, Member.eraseAll_eraseAll ms]

/-- Erasing a type twice is erasing it once, with both functions on handles. -/
theorem TypeDecl.erase_erase : ∀ d : TypeDecl, (d.erase g).erase h = d.erase (h ∘ g)
  | ⟨d, ms⟩ => by simp [TypeDecl.erase, Member.eraseAll_eraseAll ms]

end

end

/-! ## What erasing keeps -/

section

variable (h : Option MethodId → Option MethodId)

/-- Whether a statement calls the superclass constructor does not depend on ids and handles. -/
theorem Stmt.isSuperCall_erase (s : Stmt) : (s.erase h).isSuperCall = s.isSuperCall := by
  fun_cases Stmt.erase h s <;> rfl

/-- Whether a statement calls another constructor does not either. -/
theorem Stmt.isThisCall_erase (s : Stmt) : (s.erase h).isThisCall = s.isThisCall := by
  fun_cases Stmt.erase h s <;> rfl

/-- The members of an erased type are the erased members, in order. -/
theorem TypeDecl.members_erase (d : TypeDecl) :
    (d.erase h).members = d.members.map (Member.erase h) := by
  obtain ⟨head, ms⟩ := d
  rw [TypeDecl.erase, Member.eraseAll_eq_map]

/-- Erasing keeps the handle of a type. -/
theorem TypeDecl.binding_of_erase {d d' : TypeDecl} (same : d.erase h = d'.erase h) :
    d.head.binding = d'.head.binding := by
  obtain ⟨head, ms⟩ := d
  obtain ⟨head', ms'⟩ := d'
  have heads : head.erase h = head'.erase h := (TypeDecl.mk.inj same).1
  have binding := congrArg TypeHead.binding heads
  exact binding

/-- A member of one of two types that erase alike has a counterpart in the other. -/
theorem TypeDecl.exists_member_of_erase {d d' : TypeDecl} (same : d.erase h = d'.erase h)
    {m' : Member} (found : m' ∈ d'.members) : ∃ m ∈ d.members, m.erase h = m'.erase h := by
  have erased : m'.erase h ∈ d.members.map (Member.erase h) := by
    rw [← TypeDecl.members_erase, same, TypeDecl.members_erase]
    exact List.mem_map_of_mem found
  exact List.mem_map.mp erased

end

/-! ## What erasing keeps of members -/

section

variable (h : Option MethodId → Option MethodId)

def MethodDecl.erase (m : MethodDecl) : MethodDecl := ⟨m.head.erase h, m.body.map (Block.erase h)⟩

/-- Erasing keeps the kind of a member: a type stays one. -/
theorem Member.erase_type (d : TypeDecl) : (Member.type d).erase h = .type (d.erase h) := rfl

/-- Erasing a method member erases its method. -/
theorem Member.erase_method (m : MethodDecl) : (Member.method m).erase h = .method (m.erase h) := by
  obtain ⟨head, _ | b⟩ := m <;> rfl

theorem Member.erase_initializer (i : NodeInfo) (isStatic : Bool) (b : Block) :
    (Member.initializer ⟨i, isStatic, b⟩).erase h = .initializer ⟨i.erase, isStatic, b.erase h⟩ :=
  rfl

theorem Member.erase_field (f : FieldDecl) : (Member.field f).erase h = .field (f.erase h) := rfl

/-- The methods of an erased type are the erased methods. -/
theorem TypeDecl.methods_erase (d : TypeDecl) :
    (d.erase h).methods = d.methods.map (MethodDecl.erase h) := by
  rw [TypeDecl.methods, TypeDecl.members_erase, List.filterMap_map, TypeDecl.methods,
    List.map_filterMap]
  refine List.filterMap_congr fun m _ => ?_
  rcases m with d | ⟨head, _ | b⟩ | ⟨i, s, b⟩ | f <;> rfl

/-- The fields of an erased type are the erased fields. -/
theorem TypeDecl.fields_erase (d : TypeDecl) :
    (d.erase h).fields = d.fields.map (FieldDecl.erase h) := by
  rw [TypeDecl.fields, TypeDecl.members_erase, List.filterMap_map, TypeDecl.fields,
    List.map_filterMap]
  refine List.filterMap_congr fun m _ => ?_
  rcases m with d | ⟨head, _ | b⟩ | ⟨i, s, b⟩ | f <;> rfl

/-- The statements of an erased method are the erased statements. -/
theorem MethodDecl.statements_erase (m : MethodDecl) :
    (m.erase h).statements = m.statements.map (Stmt.erase h) := by
  obtain ⟨head, _ | ⟨i, ss⟩⟩ := m
  · rfl
  · exact Stmt.eraseAll_eq_map h ss

/-- A constructor stays designated, since its calls of constructors stay. -/
theorem MethodDecl.isDesignated_erase (m : MethodDecl) :
    (m.erase h).isDesignated = m.isDesignated := by
  have isThis : Stmt.isThisCall ∘ Stmt.erase h = Stmt.isThisCall :=
    funext fun s => s.isThisCall_erase h
  rw [MethodDecl.isDesignated, MethodDecl.statements_erase, List.head?_map, Option.map_map, isThis]
  rfl

/-- The call of the superclass constructor stays at its place. -/
theorem MethodDecl.superCallIndex_erase (m : MethodDecl) :
    (m.erase h).superCallIndex = m.superCallIndex := by
  have isSuper : Stmt.isSuperCall ∘ Stmt.erase h = Stmt.isSuperCall :=
    funext fun s => s.isSuperCall_erase h
  rw [MethodDecl.superCallIndex, MethodDecl.statements_erase, List.findIdx?_map, isSuper]
  rfl

/-- A type without constructors stays one. -/
theorem TypeDecl.constructors_isEmpty_erase (d : TypeDecl) :
    (d.erase h).constructors.isEmpty = d.constructors.isEmpty := by
  rw [TypeDecl.constructors, TypeDecl.methods_erase, List.filter_map, List.isEmpty_map]
  rfl

/-- A method is found by its name and arity, which erasing keeps. -/
theorem TypeDecl.findMethod?_erase (d : TypeDecl) (name : String) (arity : Nat) :
    (d.erase h).findMethod? name arity = (d.findMethod? name arity).map (MethodDecl.erase h) := by
  rw [TypeDecl.findMethod?, TypeDecl.methods_erase, List.find?_map]
  rfl

theorem TypeDecl.isSome_findMethod?_erase (d : TypeDecl) (name : String) (arity : Nat) :
    ((d.erase h).findMethod? name arity).isSome = (d.findMethod? name arity).isSome := by
  rw [TypeDecl.findMethod?_erase, Option.isSome_map]

variable {h}

/-- Two types are alike if their heads are and their members are, one by one. -/
theorem TypeDecl.erase_eq_iff {d d' : TypeDecl} : d.erase h = d'.erase h ↔
    d.head.erase h = d'.head.erase h ∧
      d.members.map (Member.erase h) = d'.members.map (Member.erase h) := by
  obtain ⟨head, ms⟩ := d
  obtain ⟨head', ms'⟩ := d'
  simp only [TypeDecl.erase, TypeDecl.mk.injEq, Member.eraseAll_eq_map]

/-- Types that are alike have one name. -/
theorem TypeDecl.name_of_erase {d d' : TypeDecl} (same : d.erase h = d'.erase h) :
    d.name = d'.name := by
  have names := congrArg TypeHead.name (TypeDecl.erase_eq_iff.mp same).1
  exact names

/-- Members that erase alike are of one kind, and their parts erase alike. -/
inductive Member.EraseAlike (h : Option MethodId → Option MethodId) : Member → Member → Prop where
  | type {d d' : TypeDecl} (same : d.erase h = d'.erase h) : EraseAlike h (.type d) (.type d')
  | method {m m' : MethodDecl} (same : m.erase h = m'.erase h) : EraseAlike h (.method m)
    (.method m')
  | initializer {i i' : NodeInfo} {isStatic : Bool} {b b' : Block} (same : b.erase h = b'.erase h) :
      EraseAlike h (.initializer ⟨i, isStatic, b⟩) (.initializer ⟨i', isStatic, b'⟩)
  | field {f f' : FieldDecl} (same : f.erase h = f'.erase h) : EraseAlike h (.field f) (.field f')

/-- Members with the same erased form are of one kind, with parts that are alike. -/
theorem Member.eraseAlike_of_eq {m m' : Member} (same : m.erase h = m'.erase h) :
    Member.EraseAlike h m m' := by
  rcases m with d | m | ⟨i, isStatic, b⟩ | f
    <;> rcases m' with d' | m' | ⟨i', isStatic', b'⟩ | f' <;>
    simp only [Member.erase_type, Member.erase_method, Member.erase_initializer, Member.erase_field,
      reduceCtorEq, Member.type.injEq, Member.method.injEq, Member.initializer.injEq,
      InitializerDecl.mk.injEq, Member.field.injEq] at same
  · exact .type same
  · exact .method same
  · obtain ⟨-, rfl, body⟩ := same
    exact .initializer body
  · exact .field same

/-- A method of one of two types that erase alike has a counterpart in the other. -/
theorem TypeDecl.exists_method_of_erase (h : Option MethodId → Option MethodId) {d d' : TypeDecl}
    (same : d.erase h = d'.erase h) {m' : MethodDecl} (found : .method m' ∈ d'.members) :
    ∃ m, .method m ∈ d.members ∧ m.erase h = m'.erase h := by
  obtain ⟨x, hx, erased⟩ := TypeDecl.exists_member_of_erase h same found
  cases Member.eraseAlike_of_eq erased with
  | method same => exact ⟨_, hx, same⟩

end

end ClassInit
