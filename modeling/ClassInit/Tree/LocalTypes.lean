import ClassInit.Edit
import ClassInit.Tree.Access

/-!
Local types: the type declarations that stand among the statements of a body at any depth of blocks,
branches, loops and `try` clauses, but not inside another type. One walk lists them in source order,
the other edits them in that order and stops at the first that cannot be edited.
-/

set_option autoImplicit false

namespace ClassInit

/-! ## Listing -/

mutual

/-- The local types of a statement. -/
def Stmt.localTypes : Stmt → List TypeDecl
  | .localType _ d => [d]
  | .block _ ⟨_, ss⟩ => Stmt.localTypesOf ss
  | .ifElse _ _ t none => t.localTypes
  | .ifElse _ _ t (some e) => t.localTypes ++ e.localTypes
  | .whileLoop _ _ b => b.localTypes
  | .forLoop _ init _ _ b => Stmt.localTypesOf init ++ b.localTypes
  | .tryCatch _ ⟨_, ss⟩ cs none => Stmt.localTypesOf ss ++ CatchClause.localTypesOf cs
  | .tryCatch _ ⟨_, ss⟩ cs (some ⟨_, fs⟩) =>
    Stmt.localTypesOf ss ++ CatchClause.localTypesOf cs ++ Stmt.localTypesOf fs
  | .expression .. => []
  | .localVariable .. => []
  | .returnValue .. => []
  | .throwValue .. => []
  | .superCall .. => []
  | .thisCall .. => []
  | .empty _ => []

/-- The local types of a list of statements. -/
def Stmt.localTypesOf : List Stmt → List TypeDecl
  | [] => []
  | s :: ss => s.localTypes ++ Stmt.localTypesOf ss

/-- The local types of a list of catch clauses. -/
def CatchClause.localTypesOf : List CatchClause → List TypeDecl
  | [] => []
  | ⟨_, _, ⟨_, ss⟩⟩ :: cs => Stmt.localTypesOf ss ++ CatchClause.localTypesOf cs

end

/-! ## Editing -/

section

variable {σ ε : Type} (f : TypeDecl → Edit σ ε TypeDecl)

mutual

/-- Edits the local types of a statement. -/
def Stmt.editLocalTypes : Stmt → Edit σ ε Stmt
  | .localType i d => (f d).map (.localType i)
  | .block i ⟨b, ss⟩ => (Stmt.editLocalTypesOf ss).map fun ss => .block i ⟨b, ss⟩
  | .ifElse i c t none => t.editLocalTypes.map fun t => .ifElse i c t none
  | .ifElse i c t (some e) =>
    t.editLocalTypes.andThen (fun t => .ifElse i c t (some e)) fun t =>
      e.editLocalTypes.map fun e => .ifElse i c t (some e)
  | .whileLoop i c b => b.editLocalTypes.map fun b => .whileLoop i c b
  | .forLoop i init c us b =>
    (Stmt.editLocalTypesOf init).andThen (fun init => .forLoop i init c us b) fun init =>
      b.editLocalTypes.map fun b => .forLoop i init c us b
  | .tryCatch i ⟨b, ss⟩ cs none =>
    (Stmt.editLocalTypesOf ss).andThen (fun ss => .tryCatch i ⟨b, ss⟩ cs none) fun ss =>
      (CatchClause.editLocalTypesOf cs).map fun cs => .tryCatch i ⟨b, ss⟩ cs none
  | .tryCatch i ⟨b, ss⟩ cs (some ⟨fb, fs⟩) =>
    (Stmt.editLocalTypesOf ss).andThen (fun ss => .tryCatch i ⟨b, ss⟩ cs (some ⟨fb, fs⟩)) fun ss =>
      (CatchClause.editLocalTypesOf cs).andThen
        (fun cs => .tryCatch i ⟨b, ss⟩ cs (some ⟨fb, fs⟩)) fun cs =>
          (Stmt.editLocalTypesOf fs).map fun fs => .tryCatch i ⟨b, ss⟩ cs (some ⟨fb, fs⟩)
  | .expression i e => Edit.keep (.expression i e)
  | .localVariable i m t fs => Edit.keep (.localVariable i m t fs)
  | .returnValue i e => Edit.keep (.returnValue i e)
  | .throwValue i e => Edit.keep (.throwValue i e)
  | .superCall i as b => Edit.keep (.superCall i as b)
  | .thisCall i as b => Edit.keep (.thisCall i as b)
  | .empty i => Edit.keep (.empty i)

/-- Edits the local types of a list of statements. -/
def Stmt.editLocalTypesOf : List Stmt → Edit σ ε (List Stmt)
  | [] => Edit.keep []
  | s :: ss =>
    s.editLocalTypes.andThen (· :: ss) fun s => (Stmt.editLocalTypesOf ss).map (s :: ·)

/-- Edits the local types of a list of catch clauses. -/
def CatchClause.editLocalTypesOf : List CatchClause → Edit σ ε (List CatchClause)
  | [] => Edit.keep []
  | ⟨sp, x, ⟨b, ss⟩⟩ :: cs =>
    (Stmt.editLocalTypesOf ss).andThen (fun ss => ⟨sp, x, ⟨b, ss⟩⟩ :: cs) fun ss =>
      (CatchClause.editLocalTypesOf cs).map (⟨sp, x, ⟨b, ss⟩⟩ :: ·)

end

/-- Edits the local types in the body of a member. -/
def Member.editLocalTypes : Member → Edit σ ε Member
  | .method ⟨h, some ⟨b, ss⟩⟩ =>
    (Stmt.editLocalTypesOf f ss).map fun ss => .method ⟨h, some ⟨b, ss⟩⟩
  | .initializer ⟨i, s, ⟨b, ss⟩⟩ =>
    (Stmt.editLocalTypesOf f ss).map fun ss => .initializer ⟨i, s, ⟨b, ss⟩⟩
  | m => Edit.keep m

/-- Edits the local types in all bodies of a type. -/
def TypeDecl.editLocalTypes (d : TypeDecl) : Edit σ ε TypeDecl :=
  (Edit.list (Member.editLocalTypes f) d.members).map fun ms => { d with members := ms }

end

end ClassInit
