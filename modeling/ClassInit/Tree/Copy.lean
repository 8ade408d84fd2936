import ClassInit.Tree.Decl

/-!
Deep copies with fresh node ids. A copy keeps everything but the ids: handles, spans and recorded
types are carried over. Expressions and statements take their id after their parts; blocks,
declarations and members take it before.
-/

set_option autoImplicit false

namespace ClassInit

/-- The same header with a fresh id. -/
def ExprInfo.renew (i : ExprInfo) : Numbered ExprInfo := do
  return { i with id := ← freshId }

/-- The same header with a fresh id. -/
def NodeInfo.renew (i : NodeInfo) : Numbered NodeInfo := do
  return { i with id := ← freshId }

/-! ## Expressions -/

mutual

def Expr.copy : Expr → Numbered Expr
  | .literal i v => return .literal (← i.renew) v
  | .name i n b => return .name (← i.renew) n b
  | .this i => return .this (← i.renew)
  | .fieldAccess i t n b => do
    let t ← t.copy
    return .fieldAccess (← i.renew) t n b
  | .unary i op e => do
    let e ← e.copy
    return .unary (← i.renew) op e
  | .step i op e => do
    let e ← e.copy
    return .step (← i.renew) op e
  | .binary i op l r => do
    let l ← l.copy
    let r ← r.copy
    return .binary (← i.renew) op l r
  | .conditional i c t e => do
    let c ← c.copy
    let t ← t.copy
    let e ← e.copy
    return .conditional (← i.renew) c t e
  | .parenthesized i e => do
    let e ← e.copy
    return .parenthesized (← i.renew) e
  | .cast i t e => do
    let e ← e.copy
    return .cast (← i.renew) t e
  | .assignment i op l r => do
    let l ← l.copy
    let r ← r.copy
    return .assignment (← i.renew) op l r
  | .call i none n as b => do
    let as ← Expr.copyAll as
    return .call (← i.renew) none n as b
  | .call i (some r) n as b => do
    let r ← r.copy
    let as ← Expr.copyAll as
    return .call (← i.renew) (some r) n as b
  | .new i t as b => do
    let as ← Expr.copyAll as
    return .new (← i.renew) t as b

def Expr.copyAll : List Expr → Numbered (List Expr)
  | [] => return []
  | e :: es => do
    let e ← e.copy
    let es ← Expr.copyAll es
    return e :: es

end

/-- A copy of an expression that may be missing. -/
def Expr.copyOption : Option Expr → Numbered (Option Expr)
  | none => return none
  | some e => return some (← e.copy)

def Fragment.copy (f : Fragment) : Numbered Fragment :=
  return { f with initializer := ← Expr.copyOption f.initializer }

def EnumConstant.copy (c : EnumConstant) : Numbered EnumConstant :=
  return { c with arguments := ← Expr.copyAll c.arguments }

def FieldDecl.copy (f : FieldDecl) : Numbered FieldDecl := do
  let id ← freshId
  return { f with id, fragments := ← f.fragments.mapM Fragment.copy }

def TypeHead.copy (h : TypeHead) : Numbered TypeHead := do
  let id ← freshId
  return { h with id, enumConstants := ← h.enumConstants.mapM EnumConstant.copy }

def MethodHead.copy (h : MethodHead) : Numbered MethodHead := do
  return { h with id := ← freshId }

/-! ## Statements and declarations -/

mutual

def Block.copy : Block → Numbered Block
  | ⟨i, ss⟩ => do
    let i ← i.renew
    let ss ← Stmt.copyAll ss
    return ⟨i, ss⟩

def Stmt.copy : Stmt → Numbered Stmt
  | .expression i e => do
    let e ← e.copy
    return .expression (← i.renew) e
  | .localVariable i m t fs => do
    let fs ← fs.mapM Fragment.copy
    return .localVariable (← i.renew) m t fs
  | .block i b => do
    let b ← b.copy
    return .block (← i.renew) b
  | .ifElse i c t none => do
    let c ← c.copy
    let t ← t.copy
    return .ifElse (← i.renew) c t none
  | .ifElse i c t (some e) => do
    let c ← c.copy
    let t ← t.copy
    let e ← e.copy
    return .ifElse (← i.renew) c t (some e)
  | .whileLoop i c b => do
    let c ← c.copy
    let b ← b.copy
    return .whileLoop (← i.renew) c b
  | .forLoop i init c us b => do
    let init ← Stmt.copyAll init
    let c ← Expr.copyOption c
    let us ← Expr.copyAll us
    let b ← b.copy
    return .forLoop (← i.renew) init c us b
  | .tryCatch i b cs none => do
    let b ← b.copy
    let cs ← CatchClause.copyAll cs
    return .tryCatch (← i.renew) b cs none
  | .tryCatch i b cs (some f) => do
    let b ← b.copy
    let cs ← CatchClause.copyAll cs
    let f ← f.copy
    return .tryCatch (← i.renew) b cs (some f)
  | .returnValue i e => do
    let e ← Expr.copyOption e
    return .returnValue (← i.renew) e
  | .throwValue i e => do
    let e ← e.copy
    return .throwValue (← i.renew) e
  | .superCall i as b => do
    let as ← Expr.copyAll as
    return .superCall (← i.renew) as b
  | .thisCall i as b => do
    let as ← Expr.copyAll as
    return .thisCall (← i.renew) as b
  | .localType i d => do
    let d ← d.copy
    return .localType (← i.renew) d
  | .empty i => return .empty (← i.renew)

def Stmt.copyAll : List Stmt → Numbered (List Stmt)
  | [] => return []
  | s :: ss => do
    let s ← s.copy
    let ss ← Stmt.copyAll ss
    return s :: ss

def CatchClause.copyAll : List CatchClause → Numbered (List CatchClause)
  | [] => return []
  | ⟨sp, x, b⟩ :: cs => do
    let b ← b.copy
    let cs ← CatchClause.copyAll cs
    return ⟨sp, x, b⟩ :: cs

def Member.copy : Member → Numbered Member
  | .type d => return .type (← d.copy)
  | .method ⟨h, none⟩ => return .method ⟨← h.copy, none⟩
  | .method ⟨h, some b⟩ => do
    let h ← h.copy
    let b ← b.copy
    return .method ⟨h, some b⟩
  | .initializer ⟨i, s, b⟩ => do
    let i ← i.renew
    let b ← b.copy
    return .initializer ⟨i, s, b⟩
  | .field f => return .field (← f.copy)

def Member.copyAll : List Member → Numbered (List Member)
  | [] => return []
  | m :: ms => do
    let m ← m.copy
    let ms ← Member.copyAll ms
    return m :: ms

def TypeDecl.copy : TypeDecl → Numbered TypeDecl
  | ⟨h, ms⟩ => do
    let h ← h.copy
    let ms ← Member.copyAll ms
    return ⟨h, ms⟩

end

/-- Gives every node of the unit a fresh id from the unit's own supply. -/
def CompilationUnit.renumber (u : CompilationUnit) : CompilationUnit :=
  let (types, supply) := u.types.mapM TypeDecl.copy u.supply
  { u with types, supply }

end ClassInit
