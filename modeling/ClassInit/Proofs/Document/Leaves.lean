import ClassInit.Tree.Decl

/-!
# What documents cannot always hold

A document holds a handle only if it fits in 32 bits, and a floating-point number only if it is
finite. These are the leaves of a tree; everything else in a tree has a place in every document.
-/

set_option autoImplicit false

namespace ClassInit

/-- A part of a tree that a document may fail to hold: a handle by its index, or a float. -/
inductive Leaf where
  | handle (index : Nat)
  | single (value : Float32)
  | double (value : Float)

namespace Leaf

/-- Whether the leaf is no floating-point number, or a finite one. -/
def IsFinite : Leaf → Prop
  | handle _ => True
  | single x => x.isFinite = true
  | double x => x.isFinite = true

/-- Handles are 32-bit numbers. -/
def IsWord : Leaf → Prop
  | handle n => n < UInt32.size
  | single _ | double _ => True

instance (l : Leaf) : Decidable l.IsFinite := by
  cases l <;> unfold IsFinite <;> infer_instance

instance (l : Leaf) : Decidable l.IsWord := by
  cases l <;> unfold IsWord <;> infer_instance

end Leaf

/-! ## Types and expressions -/

def TypeId.leaf (id : TypeId) : Leaf := .handle id.index

def VariableId.leaf (id : VariableId) : Leaf := .handle id.index

def MethodId.leaf (id : MethodId) : Leaf := .handle id.index

def TypeName.leaves (n : TypeName) : List Leaf := n.binding.toList.map TypeId.leaf

/-- The handles in a type. -/
def TypeRef.leaves : TypeRef → List Leaf
  | .primitive _ => []
  | .declared n => n.leaves
  | .array e => e.leaves
  | .null => []

def ExprInfo.leaves (i : ExprInfo) : List Leaf := i.type.toList.flatMap TypeRef.leaves

/-- The float in a literal, if it is one. -/
def Literal.leaves : Literal → List Leaf
  | .float x => [.single x]
  | .double x => [.double x]
  | .boolean _ | .char _ | .null | .int _ | .long _ | .string _ => []

mutual

/-- The handles and floats in an expression, each node before the parts of it. -/
def Expr.leaves : Expr → List Leaf
  | .literal i v => i.leaves ++ v.leaves
  | .name i _ b => i.leaves ++ b.toList.map VariableId.leaf
  | .this i => i.leaves
  | .fieldAccess i t _ b => i.leaves ++ t.leaves ++ b.toList.map VariableId.leaf
  | .unary i _ e => i.leaves ++ e.leaves
  | .step i _ e => i.leaves ++ e.leaves
  | .binary i _ l r => i.leaves ++ l.leaves ++ r.leaves
  | .conditional i c t e => i.leaves ++ c.leaves ++ t.leaves ++ e.leaves
  | .parenthesized i e => i.leaves ++ e.leaves
  | .cast i t e => i.leaves ++ t.leaves ++ e.leaves
  | .assignment i _ l r => i.leaves ++ l.leaves ++ r.leaves
  | .call i none _ as b => i.leaves ++ Expr.leavesOf as ++ b.toList.map MethodId.leaf
  | .call i (some r) _ as b =>
    i.leaves ++ r.leaves ++ Expr.leavesOf as ++ b.toList.map MethodId.leaf
  | .new i t as b => i.leaves ++ t.leaves ++ Expr.leavesOf as ++ b.toList.map MethodId.leaf

def Expr.leavesOf : List Expr → List Leaf
  | [] => []
  | e :: es => e.leaves ++ Expr.leavesOf es

end

/-! ## Declarations and statements -/

def Parameter.leaves (p : Parameter) : List Leaf :=
  p.type.leaves ++ p.binding.toList.map VariableId.leaf

def Fragment.leaves (f : Fragment) : List Leaf :=
  f.initializer.toList.flatMap Expr.leaves ++ f.binding.toList.map VariableId.leaf

def EnumConstant.leaves (c : EnumConstant) : List Leaf := Expr.leavesOf c.arguments

def FieldDecl.leaves (f : FieldDecl) : List Leaf :=
  f.type.leaves ++ f.fragments.flatMap Fragment.leaves

def MethodHead.leaves (h : MethodHead) : List Leaf :=
  h.returnType.leaves ++ h.parameters.flatMap Parameter.leaves ++ h.binding.toList.map MethodId.leaf

def TypeHead.leaves (h : TypeHead) : List Leaf :=
  h.superclass.toList.flatMap TypeName.leaves ++ h.binding.toList.map TypeId.leaf ++
    h.enumConstants.flatMap EnumConstant.leaves

mutual

def Block.leaves : Block → List Leaf
  | ⟨_, ss⟩ => Stmt.leavesOf ss

def Stmt.leaves : Stmt → List Leaf
  | .expression _ e => e.leaves
  | .localVariable _ _ t fs => t.leaves ++ fs.flatMap Fragment.leaves
  | .block _ b => b.leaves
  | .ifElse _ c t none => c.leaves ++ t.leaves
  | .ifElse _ c t (some e) => c.leaves ++ t.leaves ++ e.leaves
  | .whileLoop _ c b => c.leaves ++ b.leaves
  | .forLoop _ init c us b =>
    Stmt.leavesOf init ++ c.toList.flatMap Expr.leaves ++ Expr.leavesOf us ++ b.leaves
  | .tryCatch _ b cs none => b.leaves ++ CatchClause.leavesOf cs
  | .tryCatch _ b cs (some f) => b.leaves ++ CatchClause.leavesOf cs ++ f.leaves
  | .returnValue _ e => e.toList.flatMap Expr.leaves
  | .throwValue _ e => e.leaves
  | .superCall _ as b => Expr.leavesOf as ++ b.toList.map MethodId.leaf
  | .thisCall _ as b => Expr.leavesOf as ++ b.toList.map MethodId.leaf
  | .localType _ d => d.leaves
  | .empty _ => []

def Stmt.leavesOf : List Stmt → List Leaf
  | [] => []
  | s :: ss => s.leaves ++ Stmt.leavesOf ss

def CatchClause.leavesOf : List CatchClause → List Leaf
  | [] => []
  | ⟨_, x, b⟩ :: cs => x.leaves ++ b.leaves ++ CatchClause.leavesOf cs

def Member.leaves : Member → List Leaf
  | .type d => d.leaves
  | .method ⟨h, none⟩ => h.leaves
  | .method ⟨h, some b⟩ => h.leaves ++ b.leaves
  | .initializer ⟨_, _, b⟩ => b.leaves
  | .field f => f.leaves

def Member.leavesOf : List Member → List Leaf
  | [] => []
  | m :: ms => m.leaves ++ Member.leavesOf ms

def TypeDecl.leaves : TypeDecl → List Leaf
  | ⟨h, ms⟩ => h.leaves ++ Member.leavesOf ms

end

def CompilationUnit.leaves (u : CompilationUnit) : List Leaf := u.types.flatMap TypeDecl.leaves

end ClassInit
