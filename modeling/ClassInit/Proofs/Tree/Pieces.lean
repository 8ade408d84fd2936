import ClassInit.Proofs.Tree.Outline
import Mathlib.Data.List.Perm.Basic

/-!
# Pieces of a tree

Walks over a tree meet its declarations in the order in which they are written. `Stmt.contents` and
`Member.contents` list what such a walk meets: the fields, methods and locals of the type that it is
in, every place for a handle, and the types inside, each before the types in it
(`TypeDecl.preorder`). The types are reached one level at a time (`TypeDecl.mem_contents_types`).
-/

set_option autoImplicit false

namespace ClassInit

/-! ## Places for handles -/

/-- A variable as it is declared. -/
structure VariableSlot where
  name : String
  type : TypeRef
  modifiers : Modifiers
  binding : Option VariableId

/-- The index of the handle. -/
def VariableSlot.key (l : VariableSlot) : Option Nat := l.binding.map (·.index)

/-- A place for a handle, with the name that is written there. -/
inductive Handle where
  | ofType (name : String) (id : Option TypeId)
  | ofVariable (name : String) (id : Option VariableId)
  | ofMethod (name : String) (id : Option MethodId)

def TypeName.handle (t : TypeName) : Handle := .ofType t.name t.binding

/-- A parameter has no modifiers. -/
def Parameter.slot (p : Parameter) : VariableSlot := ⟨p.name, p.type, .empty, p.binding⟩

def Parameter.handle (p : Parameter) : Handle := .ofVariable p.name p.binding

def Fragment.slot (type : TypeRef) (modifiers : Modifiers) (f : Fragment) : VariableSlot :=
  ⟨f.name, type, modifiers, f.binding⟩

mutual

/-- The places for handles in an expression. -/
def Expr.handles : Expr → List Handle
  | .literal .. => []
  | .this _ => []
  | .name _ n b => [.ofVariable n b]
  | .fieldAccess _ t n b => t.handles ++ [.ofVariable n b]
  | .unary _ _ e => e.handles
  | .step _ _ e => e.handles
  | .binary _ _ l r => l.handles ++ r.handles
  | .conditional _ c t e => c.handles ++ t.handles ++ e.handles
  | .parenthesized _ e => e.handles
  | .cast _ _ e => e.handles
  | .assignment _ _ l r => l.handles ++ r.handles
  | .call _ none n as b => Expr.handlesOf as ++ [.ofMethod n b]
  | .call _ (some r) n as b => r.handles ++ Expr.handlesOf as ++ [.ofMethod n b]
  | .new _ t as b => [t.handle] ++ Expr.handlesOf as ++ [.ofMethod Names.constructor b]

def Expr.handlesOf : List Expr → List Handle
  | [] => []
  | e :: es => e.handles ++ Expr.handlesOf es

end

/-- The places for handles in an expression that may be missing. -/
def Expr.handlesIn : Option Expr → List Handle
  | none => []
  | some e => e.handles

/-- The places for handles in a declarator: in its initializer, and its own. -/
def Fragment.handles (f : Fragment) : List Handle :=
  Expr.handlesIn f.initializer ++ [.ofVariable f.name f.binding]

/-! ## Contents -/

/-- What a piece of a tree contains, in the order in which it is written: the fields, methods and
locals that it declares, its places for handles, all of them outside types inside it, the types
directly inside, and all types inside. -/
structure Contents where
  fields : List VariableSlot
  methods : List MethodHead
  locals : List VariableSlot
  handles : List Handle
  inner : List TypeDecl
  types : List TypeDecl

namespace Contents

def empty : Contents := ⟨[], [], [], [], [], []⟩

/-- One piece after the other. -/
def append (c d : Contents) : Contents :=
  ⟨c.fields ++ d.fields, c.methods ++ d.methods, c.locals ++ d.locals, c.handles ++ d.handles,
    c.inner ++ d.inner, c.types ++ d.types⟩

instance : Append Contents := ⟨append⟩

def ofHandles (hs : List Handle) : Contents := ⟨[], [], [], hs, [], []⟩

/-- Types, and all types in them. -/
def ofTypes (inner types : List TypeDecl) : Contents := ⟨[], [], [], [], inner, types⟩

variable (c d : Contents)

/-- The fields of two pieces are those of the one and then those of the other. -/
@[simp] theorem fields_append : (c ++ d).fields = c.fields ++ d.fields := rfl

@[simp] theorem methods_append : (c ++ d).methods = c.methods ++ d.methods := rfl

@[simp] theorem locals_append : (c ++ d).locals = c.locals ++ d.locals := rfl

/-- Places for handles are listed piece by piece. -/
@[simp] theorem handles_append : (c ++ d).handles = c.handles ++ d.handles := rfl

@[simp] theorem inner_append : (c ++ d).inner = c.inner ++ d.inner := rfl

@[simp] theorem types_append : (c ++ d).types = c.types ++ d.types := rfl

end Contents

/-- What a declarator of a local contains. -/
def Fragment.contents (type : TypeRef) (modifiers : Modifiers) (f : Fragment) : Contents :=
  ⟨[], [], [f.slot type modifiers], f.handles, [], []⟩

def Fragment.contentsOf (type : TypeRef) (modifiers : Modifiers) : List Fragment → Contents
  | [] => .empty
  | f :: fs => f.contents type modifiers ++ Fragment.contentsOf type modifiers fs

def Parameter.contents (p : Parameter) : Contents := ⟨[], [], [p.slot], [p.handle], [], []⟩

def Parameter.contentsOf : List Parameter → Contents
  | [] => .empty
  | p :: ps => p.contents ++ Parameter.contentsOf ps

/-- What a field contains. -/
def FieldDecl.contents (f : FieldDecl) : Contents :=
  ⟨f.fragments.map (Fragment.slot f.type f.modifiers), [], [], f.fragments.flatMap Fragment.handles,
    [], []⟩

/-- What a method contains without its parameters and its body. -/
def MethodHead.contents (h : MethodHead) : Contents :=
  ⟨[], [h], [], [.ofMethod h.name h.binding], [], []⟩

mutual

/-- A type and the types inside it, each before those in it. -/
def TypeDecl.preorder : TypeDecl → List TypeDecl
  | ⟨h, ms⟩ => ⟨h, ms⟩ :: (Member.contentsOf ms).types

def Member.contents : Member → Contents
  | .type d => .ofTypes [d] d.preorder
  | .field f => f.contents
  | .method ⟨h, none⟩ => h.contents ++ Parameter.contentsOf h.parameters
  | .method ⟨h, some ⟨_, ss⟩⟩ =>
    h.contents ++ Parameter.contentsOf h.parameters ++ Stmt.contentsOf ss
  | .initializer ⟨_, _, ⟨_, ss⟩⟩ => Stmt.contentsOf ss

def Member.contentsOf : List Member → Contents
  | [] => .empty
  | m :: ms => m.contents ++ Member.contentsOf ms

def Stmt.contents : Stmt → Contents
  | .expression _ e => .ofHandles e.handles
  | .localVariable _ m t fs => Fragment.contentsOf t m fs
  | .block _ ⟨_, ss⟩ => Stmt.contentsOf ss
  | .ifElse _ c t none => .ofHandles c.handles ++ t.contents
  | .ifElse _ c t (some e) => .ofHandles c.handles ++ t.contents ++ e.contents
  | .whileLoop _ c b => .ofHandles c.handles ++ b.contents
  | .forLoop _ init c us b =>
    Stmt.contentsOf init ++ .ofHandles (Expr.handlesIn c) ++ .ofHandles (Expr.handlesOf us) ++
      b.contents
  | .tryCatch _ ⟨_, ss⟩ cs none => Stmt.contentsOf ss ++ CatchClause.contentsOf cs
  | .tryCatch _ ⟨_, ss⟩ cs (some ⟨_, fs⟩) =>
    Stmt.contentsOf ss ++ CatchClause.contentsOf cs ++ Stmt.contentsOf fs
  | .returnValue _ e => .ofHandles (Expr.handlesIn e)
  | .throwValue _ e => .ofHandles e.handles
  | .superCall _ as b => .ofHandles (Expr.handlesOf as ++ [.ofMethod Names.constructor b])
  | .thisCall _ as b => .ofHandles (Expr.handlesOf as ++ [.ofMethod Names.constructor b])
  | .localType _ d => .ofTypes [d] d.preorder
  | .empty _ => .empty

def Stmt.contentsOf : List Stmt → Contents
  | [] => .empty
  | s :: ss => s.contents ++ Stmt.contentsOf ss

def CatchClause.contentsOf : List CatchClause → Contents
  | [] => .empty
  | ⟨_, x, ⟨_, ss⟩⟩ :: cs => x.contents ++ Stmt.contentsOf ss ++ CatchClause.contentsOf cs

end

/-- The places for handles in the enum constants of a type. -/
def TypeHead.constantHandles (h : TypeHead) : List Handle :=
  h.enumConstants.flatMap fun c => Expr.handlesOf c.arguments

/-- What a type itself contains. -/
def TypeDecl.contents (d : TypeDecl) : Contents :=
  .ofHandles d.head.constantHandles ++ Member.contentsOf d.members

/-- The places for handles in the head of a type, outside its enum constants. -/
def TypeHead.handles (h : TypeHead) : List Handle :=
  .ofType h.name h.binding :: h.superclass.toList.map TypeName.handle

/-- The places for handles in a type outside the types inside it. -/
def TypeDecl.handles (d : TypeDecl) : List Handle := d.head.handles ++ d.contents.handles

/-- Every type declaration of a unit in the order in which they are written. -/
def CompilationUnit.preorder (u : CompilationUnit) : List TypeDecl :=
  u.types.flatMap TypeDecl.preorder

/-- A type comes first in its own listing. -/
theorem TypeDecl.preorder_cons (d : TypeDecl) : d.preorder = d :: d.contents.types := by
  obtain ⟨h, ms⟩ := d
  rw [TypeDecl.preorder]
  rfl

/-- A type is listed with the types inside it. -/
theorem TypeDecl.mem_preorder_self (d : TypeDecl) : d ∈ d.preorder := by
  rw [TypeDecl.preorder_cons]
  exact List.mem_cons_self

theorem TypeDecl.mem_flatMap_preorder {ds : List TypeDecl} {d : TypeDecl} (hd : d ∈ ds) :
    d ∈ ds.flatMap TypeDecl.preorder :=
  List.mem_flatMap.mpr ⟨d, hd, d.mem_preorder_self⟩

/-! ## One type at a time -/

/-- Variables declare no types. -/
@[simp] theorem Fragment.contentsOf_types (type : TypeRef) (modifiers : Modifiers)
    (fs : List Fragment) :
    (Fragment.contentsOf type modifiers fs).types = [] := by
  induction fs with
  | nil => rfl
  | cons f fs ih => exact ih

@[simp] theorem Parameter.contentsOf_types (ps : List Parameter) :
    (Parameter.contentsOf ps).types = [] := by
  induction ps with
  | nil => rfl
  | cons p ps ih => exact ih

/-- The types directly inside are these, and the types inside are these and those in them. -/
structure Contents.Nests (c : Contents) (ds : List TypeDecl) : Prop where
  inner : c.inner = ds
  types : c.types = ds.flatMap TypeDecl.preorder

namespace Contents.Nests

theorem ofHandles (hs : List Handle) : (Contents.ofHandles hs).Nests [] := ⟨rfl, rfl⟩

theorem ofType (d : TypeDecl) : (Contents.ofTypes [d] d.preorder).Nests [d] :=
  ⟨rfl, (List.append_nil _).symm⟩

/-- Pieces one after the other hold the types of each. -/
theorem append {c c' : Contents} {ds ds' : List TypeDecl} (first : c.Nests ds)
    (second : c'.Nests ds') :
    (c ++ c').Nests (ds ++ ds') := by
  refine ⟨?_, ?_⟩
  · rw [inner_append, first.inner, second.inner]
  · rw [types_append, first.types, second.types, List.flatMap_append]

theorem ofFragments (type : TypeRef) (modifiers : Modifiers) (fs : List Fragment) :
    (Fragment.contentsOf type modifiers fs).Nests [] := by
  induction fs with
  | nil => exact ⟨rfl, rfl⟩
  | cons f fs ih => exact ⟨ih.inner, ih.types⟩

theorem ofParameters (ps : List Parameter) : (Parameter.contentsOf ps).Nests [] := by
  induction ps with
  | nil => exact ⟨rfl, rfl⟩
  | cons p ps ih => exact ⟨ih.inner, ih.types⟩

end Contents.Nests

mutual

/-- The types in a statement are its local types, with all that is inside them. -/
theorem Stmt.contents_nests : ∀ s : Stmt, s.contents.Nests s.localTypes
  | .localType _ d => .ofType d
  | .block _ ⟨_, ss⟩ => Stmt.contentsOf_nests ss
  | .ifElse _ c t none => (Contents.Nests.ofHandles c.handles).append (Stmt.contents_nests t)
  | .ifElse _ c t (some e) =>
    (Contents.Nests.append (.ofHandles c.handles) (Stmt.contents_nests t)).append
      (Stmt.contents_nests e)
  | .whileLoop _ c b => (Contents.Nests.ofHandles c.handles).append (Stmt.contents_nests b)
  | .forLoop _ init c us b => by
    have header := ((Stmt.contentsOf_nests init).append (.ofHandles (Expr.handlesIn c))).append
      (.ofHandles (Expr.handlesOf us))
    rw [List.append_nil, List.append_nil] at header
    exact header.append (Stmt.contents_nests b)
  | .tryCatch _ ⟨_, ss⟩ cs none =>
    (Stmt.contentsOf_nests ss).append (CatchClause.contentsOf_nests cs)
  | .tryCatch _ ⟨_, ss⟩ cs (some ⟨_, fs⟩) =>
    ((Stmt.contentsOf_nests ss).append (CatchClause.contentsOf_nests cs)).append
      (Stmt.contentsOf_nests fs)
  | .localVariable _ m t fs => .ofFragments t m fs
  | .expression _ e => .ofHandles e.handles
  | .returnValue _ e => .ofHandles (Expr.handlesIn e)
  | .throwValue _ e => .ofHandles e.handles
  | .superCall .. => .ofHandles _
  | .thisCall .. => .ofHandles _
  | .empty _ => ⟨rfl, rfl⟩

/-- The types in a body are its local types and the types in these. -/
theorem Stmt.contentsOf_nests : ∀ ss : List Stmt, (Stmt.contentsOf ss).Nests (Stmt.localTypesOf ss)
  | [] => ⟨rfl, rfl⟩
  | s :: ss => (Stmt.contents_nests s).append (Stmt.contentsOf_nests ss)

theorem CatchClause.contentsOf_nests : ∀ cs : List CatchClause,
    (CatchClause.contentsOf cs).Nests (CatchClause.localTypesOf cs)
  | [] => ⟨rfl, rfl⟩
  | ⟨_, x, ⟨_, ss⟩⟩ :: cs =>
    (Contents.Nests.append (c := x.contents) ⟨rfl, rfl⟩ (Stmt.contentsOf_nests ss)).append
      (CatchClause.contentsOf_nests cs)

end

/-- The types in a member are those directly inside it, with all that is inside them. -/
theorem Member.contents_nests (m : Member) : m.contents.Nests m.inner := by
  have none : ∀ h : MethodHead, (h.contents ++ Parameter.contentsOf h.parameters).Nests [] :=
    fun h => Contents.Nests.append ⟨rfl, rfl⟩ (.ofParameters h.parameters)
  rcases m with d | ⟨h, _ | ⟨i, ss⟩⟩ | ⟨i, s, ⟨b, ss⟩⟩ | f
  · exact .ofType d
  · exact none h
  · exact (none h).append (Stmt.contentsOf_nests ss)
  · exact Stmt.contentsOf_nests ss
  · exact ⟨rfl, rfl⟩

/-- The types in a list of members are those directly inside each. -/
theorem Member.contentsOf_nests (ms : List Member) :
    (Member.contentsOf ms).Nests (ms.flatMap Member.inner) := by
  induction ms with
  | nil => exact ⟨rfl, rfl⟩
  | cons m ms ih => exact m.contents_nests.append ih

/-- What a type contains are the types in its members, one member after the other, and those in
them. -/
theorem TypeDecl.contents_nests (d : TypeDecl) :
    d.contents.Nests (d.members.flatMap Member.inner) :=
  Contents.Nests.append (.ofHandles d.head.constantHandles) (Member.contentsOf_nests d.members)

/-- The contents of a type list the types directly inside it. -/
theorem TypeDecl.mem_contents_inner {d c : TypeDecl} : c ∈ d.contents.inner ↔ c ∈ d.inner := by
  rw [d.contents_nests.inner, List.mem_flatMap, TypeDecl.mem_inner]

/-- What stands in a type stands in a type directly inside it. -/
theorem TypeDecl.mem_contents_types {d x : TypeDecl} :
    x ∈ d.contents.types ↔ ∃ c ∈ d.inner, x ∈ c.preorder := by
  rw [d.contents_nests.types, List.mem_flatMap]
  simp only [List.mem_flatMap, TypeDecl.mem_inner]

/-- The walk through a type goes through the types inside it. -/
theorem TypeDecl.preorder_subset_of_inner {d c : TypeDecl} (listed : c ∈ d.inner) :
    c.preorder ⊆ d.preorder := by
  intro x hx
  rw [TypeDecl.preorder_cons]
  exact List.mem_cons_of_mem _ (TypeDecl.mem_contents_types.mpr ⟨c, listed, hx⟩)

/-- The walk through a type goes through its member types. -/
theorem TypeDecl.preorder_subset_of_member {d c : TypeDecl} (member : Member.type c ∈ d.members) :
    c.preorder ⊆ d.preorder :=
  TypeDecl.preorder_subset_of_inner (TypeDecl.mem_inner.mpr ⟨_, member, List.mem_cons_self⟩)

end ClassInit
